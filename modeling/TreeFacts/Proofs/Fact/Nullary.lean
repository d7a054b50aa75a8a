import TreeFacts.Program.Interface
import TreeFacts.Proofs.Fact.Normal

namespace TreeFacts.FactSet

variable {registry : Registry} {dir : Directory} {fs fs' : FactSet} {r : Relation}
  {relations : List Relation} {tuples : List Tuple} {name : String}

/-- The facts that have values. Only a relation without columns has others. -/
def withoutEmpty (fs : FactSet) : FactSet :=
  ⟨fs.tables.map fun e => (e.1, e.2.1, e.2.2.filter fun t => !t.isEmpty)⟩

theorem table?_withoutEmpty (fs : FactSet) (n : String) :
    fs.withoutEmpty.table? n =
      (fs.table? n).map fun table => (table.1, table.2.filter fun t => !t.isEmpty) := by
  have hkeys : ∀ a b : String, id a = id b → a = b := fun _ _ h => h
  exact Entries.lookup_map_keys hkeys
    (fun table : Relation × List Tuple => (table.1, table.2.filter fun t => !t.isEmpty)) fs.tables n

theorem relations_withoutEmpty (fs : FactSet) : fs.withoutEmpty.relations = fs.relations := by
  rw [relations, relations, withoutEmpty, List.map_map]
  rfl

theorem WellFormed.withoutEmpty (wf : fs.WellFormed) : fs.withoutEmpty.WellFormed where
  ascending := List.pairwise_map.mpr wf.ascending
  name_eq h := by
    rw [table?_withoutEmpty] at h
    obtain ⟨table, htable, heq⟩ := Option.map_eq_some_iff.mp h
    cases heq
    exact wf.name_eq htable
  length_eq h := by
    rw [table?_withoutEmpty] at h
    obtain ⟨table, htable, heq⟩ := Option.map_eq_some_iff.mp h
    cases heq
    intro t ht
    exact wf.length_eq htable t (List.mem_filter.mp ht).1

/-- Of a tuple without values there is no trace in the rows of a file. -/
theorem parse_render_withoutEmpty (tuples : List Tuple) :
    Table.parse (Table.render (tuples.filter fun t => !t.isEmpty)) =
      Table.parse (Table.render tuples) := by
  rw [Table.parse_render, Table.parse_render, List.filter_filter]
  simp only [Bool.and_self]

theorem readRelation_withoutEmpty (wf : fs.WellFormed) (fs₀ : FactSet) (r : Relation) :
    readRelation registry fs.withoutEmpty.files fs₀ r = readRelation registry fs.files fs₀ r := by
  unfold readRelation
  rw [lookup_files wf, lookup_files wf.withoutEmpty, table?_withoutEmpty]
  cases fs.table? r.name with
  | none => rfl
  | some table =>
    simp only [Option.map_some, Text.decode?_toUTF8, parse_render_withoutEmpty]

theorem read_withoutEmpty (wf : fs.WellFormed) (relations : List Relation) :
    read registry fs.withoutEmpty.files relations = read registry fs.files relations := by
  have hstep : readRelation registry fs.withoutEmpty.files = readRelation registry fs.files := by
    funext fs₀ r
    exact readRelation_withoutEmpty wf fs₀ r
  rw [read, read, hstep]

theorem restorable_withoutEmpty (wf : fs.WellFormed)
    (hp : ∀ {name r tuples}, fs.table? name = some (r, tuples) → r.arity ≠ 0 →
      Portable registry r tuples)
    (h : fs.withoutEmpty.table? name = some (r, tuples)) : Restorable registry r tuples := by
  rw [table?_withoutEmpty] at h
  obtain ⟨⟨r', held⟩, htable, heq⟩ := Option.map_eq_some_iff.mp h
  obtain ⟨rfl, rfl⟩ := Prod.mk.inj heq
  intro t ht
  obtain ⟨hheld, hfull⟩ := List.mem_filter.mp ht
  have hne : t ≠ [] := by
    rintro rfl
    cases hfull
  -- A tuple with values stands in a relation with columns.
  have harity : r'.arity ≠ 0 := by
    intro hzero
    have hlength := wf.length_eq htable t hheld
    rw [hzero] at hlength
    exact hne (List.eq_nil_of_length_eq_zero hlength)
  exact ⟨hne, (hp htable harity).2 t hheld⟩

theorem withoutEmpty_eq_self (wf : fs.WellFormed) :
    fs.withoutEmpty = fs ↔
      ∀ {name r tuples}, fs.table? name = some (r, tuples) → r.arity = 0 → tuples = [] := by
  constructor
  · intro h name r tuples htable hzero
    have hsame : fs.withoutEmpty.table? name = some (r, tuples) := by rw [h, htable]
    rw [table?_withoutEmpty, htable, Option.map_some] at hsame
    have hall : tuples.filter (fun t => !t.isEmpty) = tuples :=
      (Prod.mk.inj (Option.some.inj hsame)).2
    refine List.eq_nil_iff_forall_not_mem.mpr fun t ht => ?_
    have hlength := wf.length_eq htable t ht
    rw [hzero] at hlength
    have hfull := List.filter_eq_self.mp hall t ht
    rw [List.eq_nil_of_length_eq_zero hlength] at hfull
    cases hfull
  · intro h
    refine ext_of_table? wf.withoutEmpty.ascending wf.ascending fun n => ?_
    rw [table?_withoutEmpty]
    cases htable : fs.table? n with
    | none => rfl
    | some table =>
      obtain ⟨r, tuples⟩ := table
      have hall : tuples.filter (fun t => !t.isEmpty) = tuples := by
        refine List.filter_eq_self.mpr fun t ht => ?_
        cases t with
        | cons v t => rfl
        | nil =>
          have hzero : r.arity = 0 := (wf.length_eq htable [] ht).symm
          rw [h htable hzero] at ht
          cases ht
      rw [Option.map_some, hall]

/-- No row of any file is a tuple of a relation without columns. -/
theorem fileTuples_nullary (hzero : r.arity = 0) (h : fileTuples registry dir r = .ok tuples) :
    tuples = [] := by
  refine List.eq_nil_iff_forall_not_mem.mpr fun t ht => ?_
  have hlength := fileTuples_length h t ht
  rw [hzero] at hlength
  exact (restorable_of_fileTuples h t ht).1 (List.eq_nil_of_length_eq_zero hlength)

theorem facts_nullary (hnames : (relations.map (·.name)).Nodup)
    (h : read registry dir relations = .ok fs') (hr : r ∈ relations) (hzero : r.arity = 0) :
    fs'.facts r.name = .ok [] := by
  obtain ⟨tuples, hfile, htable⟩ := table?_of_mem_relations hnames h hr
  rw [facts_of_table? htable, fileTuples_nullary hzero hfile]

theorem eq_files_of_write (h : fs.write = .ok dir) : dir = fs.files := by
  unfold write at h
  split at h
  next => exact (Except.ok.inj h).symm
  next => cases h

/-- What the directory written for facts gives back when there are relations without columns. Such a
relation comes back without tuples, so as many as it held just if it held none; the others come back
with all of theirs. -/
theorem read_nullary (wf : fs.WellFormed) (hwrite : fs.write = .ok dir)
    (hperm : relations.Perm fs.relations) :
    (∀ fs', read registry dir relations = .ok fs' → ∀ r ∈ relations, r.arity = 0 →
      ∃ tuples, fs.facts r.name = .ok tuples ∧ fs'.facts r.name = .ok [] ∧
        (fs'.facts r.name = fs.facts r.name ↔ tuples.length = 0)) ∧
    ((∀ {name r tuples}, fs.table? name = some (r, tuples) → r.arity ≠ 0 →
        Portable registry r tuples) →
      read registry dir relations = .ok fs.withoutEmpty ∧
        (fs.withoutEmpty = fs ↔
          ∀ {name r tuples}, fs.table? name = some (r, tuples) → r.arity = 0 → tuples = [])) := by
  rw [eq_files_of_write hwrite]
  constructor
  · intro fs' hread r hr hzero
    have hnames : (relations.map (·.name)).Nodup := by
      rw [(hperm.map _).nodup_iff, map_name_relations wf]
      exact wf.ascending.nodup_keys
    have hempty := facts_nullary hnames hread hr hzero
    obtain ⟨tuples, htable⟩ := mem_relations wf (hperm.mem_iff.mp hr)
    refine ⟨tuples, facts_of_table? htable, hempty, ?_⟩
    rw [hempty, facts_of_table? htable, Except.ok.injEq, List.length_eq_zero_iff]
    exact eq_comm
  · intro hp
    refine ⟨?_, withoutEmpty_eq_self wf⟩
    rw [← read_withoutEmpty wf]
    refine read_of_restorable wf.withoutEmpty (restorable_withoutEmpty wf hp) ?_
    rwa [relations_withoutEmpty]

/-- Says of a run that it halted, and of no value. -/
def halted : Relation := ⟨"halted", []⟩

/-- Two tuples that say the same, and a number. -/
def haltedFacts : FactSet :=
  ⟨[("halted", halted, [[], []]), ("step", ⟨"step", [("n", .number)]⟩, [[.number 3]])]⟩

theorem table?_haltedFacts (h : haltedFacts.table? name = some (r, tuples)) :
    name = "halted" ∧ r = halted ∧ tuples = [[], []] ∨
      name = "step" ∧ r = ⟨"step", [("n", .number)]⟩ ∧ tuples = [[.number 3]] := by
  have hmem := Entries.mem_of_lookup h
  simpa [haltedFacts] using hmem

theorem wellFormed_haltedFacts : haltedFacts.WellFormed where
  ascending := by
    refine List.pairwise_pair.mpr ?_
    decide
  name_eq h := by
    rcases table?_haltedFacts h with ⟨rfl, rfl, -⟩ | ⟨rfl, rfl, -⟩ <;> rfl
  length_eq h := by
    rcases table?_haltedFacts h with ⟨-, rfl, rfl⟩ | ⟨-, rfl, rfl⟩ <;> decide

theorem read_nullary_halted :
    haltedFacts.WellFormed ∧ haltedFacts.write = .ok haltedFacts.files ∧
      read Registry.empty haltedFacts.files haltedFacts.relations = .ok haltedFacts.withoutEmpty ∧
      haltedFacts.withoutEmpty.facts "halted" = .ok [] ∧
      haltedFacts.withoutEmpty.facts "step" = .ok [[.number 3]] := by
  have hwrite : haltedFacts.write = .ok haltedFacts.files := by
    refine write_eq_ok.mpr ?_
    decide +kernel
  obtain ⟨hnullary, hread⟩ :=
    @read_nullary Registry.empty _ _ _ wellFormed_haltedFacts hwrite (List.Perm.refl _)
  have hall := hread (by
    intro name r tuples htable hcolumns
    rcases table?_haltedFacts htable with ⟨-, rfl, -⟩ | ⟨-, rfl, rfl⟩
    · exact absurd rfl hcolumns
    · have hnumber : Registry.empty.classify .number = .ok .number := rfl
      refine ⟨by decide, fun t ht => ?_⟩
      rw [List.mem_singleton.mp ht]
      refine ⟨?_, by decide⟩
      simp [HaveTypes, HasType, hnumber])
  obtain ⟨_, -, hempty, -⟩ := hnullary _ hall.1 halted (by decide) rfl
  exact ⟨wellFormed_haltedFacts, hwrite, hall.1, hempty, rfl⟩

/-- Both tuples of a declared relation without columns are lost. -/
theorem read_halted :
    Program.Interface.parse ".decl halted()\n" = .ok ⟨[], [halted], []⟩ ∧
      (ofRelations [halted]).addAll [("halted", []), ("halted", [])] =
        .ok ⟨[("halted", halted, [[], []])]⟩ ∧
      ((⟨[("halted", halted, [[], []])]⟩ : FactSet).write.bind fun dir =>
        read Registry.empty dir [halted]) = .ok ⟨[("halted", halted, [])]⟩ :=
  ⟨by decide +kernel, by decide +kernel, by decide +kernel⟩

end TreeFacts.FactSet
