import TreeFacts.Proofs.Fact.Files
import TreeFacts.Proofs.Fact.Table

namespace TreeFacts

theorem Text.trim_of_not_isBlank {cs : List Char} (h : ∀ c ∈ cs, isBlank c = false) :
    trim cs = cs := by
  have hdrop : ∀ ds : List Char, (∀ c ∈ ds, isBlank c = false) → ds.dropWhile isBlank = ds := by
    intro ds hds
    cases ds with
    | nil => rfl
    | cons d ds => simp [hds d List.mem_cons_self]
  have hrev : cs.reverse.dropWhile isBlank = cs.reverse :=
    hdrop cs.reverse fun c hc => h c (List.mem_reverse.mp hc)
  simp only [trim, trimStart, trimEnd, hdrop cs h, hrev, List.reverse_reverse]

theorem Text.decode?_toUTF8 (s : String) : decode? s.toUTF8 = some s := by
  simp only [decode?, String.fromUTF8?, String.toUTF8_eq_toByteArray, dif_pos s.isValidUTF8]
  rfl

namespace FactValue

variable {registry : Registry} {v : FactValue} {type : ColumnType}

/-- The text of a value as a field is read as the value. -/
theorem parse_fieldText (ht : HasType registry v type) (hp : v.hasPlainTags = true) :
    parse registry type v.fieldText = .ok v := by
  cases v with
  | number n =>
    have hblank : ∀ c ∈ (Text.showInt64 n).toList, Text.isBlank c = false :=
      fun c hc => isBlank_of_isNumeralChar (isNumeralChar_of_mem_showInt64 hc)
    simp only [HasType] at ht
    obtain ⟨c, hc, hn⟩ := ht
    simp only [parse, fieldText, hc, ok_bind, Text.trim_of_not_isBlank hblank]
    rcases hn with rfl | rfl | rfl <;> exact parseNumber_showInt64 n
  | symbol s =>
    simp only [HasType] at ht
    simp only [parse, fieldText, ht, ok_bind, pure_eq_ok]
  | nil =>
    have hc := ht
    simp only [HasType] at hc
    exact parse_render ht hp (Or.inl hc.1)
  | record fields =>
    have hc := ht
    simp only [HasType] at hc
    exact parse_render ht hp (Or.inl hc.1)
  | branch tag args =>
    have hc := ht
    simp only [HasType] at hc
    exact parse_render ht hp (Or.inr hc.1)

end FactValue

namespace FactSet

variable {registry : Registry}

theorem parseFields_fieldText {t : Tuple} {columns : FieldTypes} (ht : HaveTypes registry t columns)
    (hp : FactValue.allHavePlainTags t = true) :
    ((t.map FactValue.fieldText).zip columns).mapM
        (fun p : String × String × ColumnType => FactValue.parse registry p.2.2 p.1) = .ok t := by
  induction t generalizing columns with
  | nil => rfl
  | cons v t ih =>
    cases columns with
    | nil => simp [HaveTypes] at ht
    | cons column columns =>
      simp only [HaveTypes] at ht
      simp only [FactValue.allHavePlainTags, Bool.and_eq_true] at hp
      rw [List.map_cons, List.zip_cons_cons, List.mapM_cons, FactValue.parse_fieldText ht.1 hp.1]
      simp only [ok_bind, ih ht.2 hp.2, pure_eq_ok]

theorem parseRow_fieldText {r : Relation} {t : Tuple} (ht : HaveTypes registry t r.columns)
    (hp : FactValue.allHavePlainTags t = true) (index : Nat) :
    parseRow registry r index (t.map FactValue.fieldText) = .ok t := by
  have hlen : (t.map FactValue.fieldText).length = r.arity := by
    rw [List.length_map, ht.length_eq, Relation.arity]
  rw [parseRow, if_pos hlen]
  exact parseFields_fieldText ht hp

theorem parseRows_fieldText {r : Relation} {tuples : List Tuple}
    (ht : ∀ t ∈ tuples, HaveTypes registry t r.columns ∧ FactValue.allHavePlainTags t = true)
    (index : Nat) :
    parseRows registry r index (tuples.map fun t => t.map FactValue.fieldText) = .ok tuples := by
  induction tuples generalizing index with
  | nil => rfl
  | cons t tuples ih =>
    obtain ⟨⟨htypes, hplain⟩, hrest⟩ := List.forall_mem_cons.mp ht
    rw [List.map_cons, parseRows, parseRow_fieldText htypes hplain, ok_bind, ih hrest, ok_bind,
      pure_eq_ok]

theorem fileName_inj {a b : String} (h : fileName a = fileName b) : a = b := by
  have hlist := congrArg String.toList h
  simp only [fileName, String.toList_append] at hlist
  exact String.toList_inj.mp (List.append_cancel_right hlist)

theorem lookup_files {fs : FactSet} (wf : fs.WellFormed) (n : String) :
    fs.files.lookup (fileName n) =
      (fs.table? n).map fun table => (Table.render table.2).toUTF8 := by
  have hnodup : ((fs.tables.map fun e => (fileName e.1, (Table.render e.2.2).toUTF8)).map
      (·.1)).Nodup := by
    rw [List.map_map]
    have hkeys := List.pairwise_map.mp wf.ascending.nodup_keys
    exact List.pairwise_map.mpr (hkeys.imp fun hne heq => hne (fileName_inj heq))
  have hfiles : fs.files.lookup (fileName n) =
      (fs.tables.map fun e => (fileName e.1, (Table.render e.2.2).toUTF8)).lookup (fileName n) :=
    Entries.lookup_ofList hnodup (fileName n)
  rw [hfiles]
  exact Entries.lookup_map_keys (fun a b => fileName_inj)
    (fun table : Relation × List Tuple => (Table.render table.2).toUTF8) fs.tables n

/-- Tuples that survive transport: at least one column, values of the columns' types, and branches
that can be told from what follows them. -/
def Portable (registry : Registry) (r : Relation) (tuples : List Tuple) : Prop :=
  r.columns ≠ [] ∧
    ∀ t ∈ tuples, HaveTypes registry t r.columns ∧ FactValue.allHavePlainTags t = true

/-- Tuples that are found again in a file: none is empty, as an empty line is no row. -/
def Restorable (registry : Registry) (r : Relation) (tuples : List Tuple) : Prop :=
  ∀ t ∈ tuples, t ≠ [] ∧ HaveTypes registry t r.columns ∧ FactValue.allHavePlainTags t = true

theorem Portable.restorable {r : Relation} {tuples : List Tuple} (h : Portable registry r tuples) :
    Restorable registry r tuples := by
  intro t ht
  obtain ⟨htypes, hplain⟩ := h.2 t ht
  refine ⟨?_, htypes, hplain⟩
  rintro rfl
  apply h.1
  apply List.eq_nil_of_length_eq_zero
  rw [← htypes.length_eq, List.length_nil]

theorem fileTuples_render {dir : Directory} {r : Relation} {tuples : List Tuple}
    (hp : Restorable registry r tuples)
    (hfile : dir.lookup (fileName r.name) = some (Table.render tuples).toUTF8) :
    fileTuples registry dir r = .ok tuples := by
  have hfull : tuples.filter (fun t => !t.isEmpty) = tuples := by
    refine List.filter_eq_self.mpr ?_
    intro t hmem
    cases t with
    | nil => exact absurd rfl (hp [] hmem).1
    | cons v t => rfl
  simp only [fileTuples, hfile, Text.decode?_toUTF8, Table.parse_render, hfull]
  exact parseRows_fieldText (fun t ht => (hp t ht).2) 0

theorem mem_relations {fs : FactSet} (wf : fs.WellFormed) {r : Relation} (h : r ∈ fs.relations) :
    ∃ tuples, fs.table? r.name = some (r, tuples) := by
  obtain ⟨⟨name, r', tuples⟩, hmem, rfl⟩ := List.mem_map.mp h
  have htable : fs.table? name = some (r', tuples) :=
    Entries.lookup_of_mem wf.ascending.nodup_keys hmem
  exact ⟨tuples, wf.name_eq htable ▸ htable⟩

theorem map_name_relations {fs : FactSet} (wf : fs.WellFormed) :
    fs.relations.map (·.name) = fs.names := by
  rw [relations, names, List.map_map]
  refine List.map_congr_left ?_
  rintro ⟨name, r, tuples⟩ hmem
  exact wf.name_eq (Entries.lookup_of_mem wf.ascending.nodup_keys hmem)

theorem read_of_restorable {fs : FactSet} (wf : fs.WellFormed)
    (hp : ∀ {name r tuples}, fs.table? name = some (r, tuples) → Restorable registry r tuples)
    {relations : List Relation} (hperm : relations.Perm fs.relations) :
    read registry fs.files relations = .ok fs := by
  have hnames : (relations.map (·.name)).Perm fs.names := by
    rw [← map_name_relations wf]
    exact hperm.map _
  have hnodup : (relations.map (·.name)).Nodup := hnames.nodup_iff.mpr wf.ascending.nodup_keys
  have htables : ∀ r ∈ relations, ∃ tuples, fs.table? r.name = some (r, tuples) ∧
      fileTuples registry fs.files r = .ok tuples := by
    intro r hr
    obtain ⟨tuples, htable⟩ := mem_relations wf (hperm.mem_iff.mp hr)
    have hfile : fs.files.lookup (fileName r.name) = some (Table.render tuples).toUTF8 := by
      rw [lookup_files wf, htable, Option.map_some]
    exact ⟨tuples, htable, fileTuples_render (hp htable) hfile⟩
  obtain ⟨fs', hread⟩ : ∃ fs', read registry fs.files relations = .ok fs' :=
    exists_read hnodup (fun r hr => (htables r hr).imp fun _ h => h.2) fun _ _ => table?_empty _
  -- The relations are those of the facts, so every name has the same table in both.
  have heq : fs' = fs := by
    refine ext_of_table? (wellFormed_empty.read hread).ascending wf.ascending fun n => ?_
    by_cases hn : n ∈ relations.map (·.name)
    · obtain ⟨r, hr, rfl⟩ := List.mem_map.mp hn
      obtain ⟨tuples, htable, hfile⟩ := htables r hr
      obtain ⟨tuples', hfile', htable'⟩ := table?_of_mem_relations hnodup hread hr
      cases hfile.symm.trans hfile'
      rw [htable', htable]
    · have habsent : n ∉ fs.names := fun h => hn (hnames.mem_iff.mpr h)
      rw [table?_of_notMem_relations hread hn]
      exact (Entries.lookup_eq_none_iff.mpr habsent).symm
  rw [hread, heq]

theorem write_eq_ok {fs : FactSet} :
    fs.write = .ok fs.files ↔ ∀ name ∈ fs.names, isFileName (fileName name) = true := by
  unfold write
  split
  next hall => simpa using hall
  next hall => simpa using hall

/-- Facts survive transport. The directory that is written for them, as far as their relations have
names for files, gives back all tuples in their order, whatever the order of the relations. -/
theorem read_files {fs : FactSet} (wf : fs.WellFormed)
    (hp : ∀ {name r tuples}, fs.table? name = some (r, tuples) → Portable registry r tuples)
    {relations : List Relation} (hperm : relations.Perm fs.relations) :
    read registry fs.files relations = .ok fs ∧
      (fs.write = .ok fs.files ↔ ∀ name ∈ fs.names, isFileName (fileName name) = true) := by
  refine ⟨?_, write_eq_ok⟩
  exact read_of_restorable wf (fun htable => (hp htable).restorable) hperm

/-- Chains of texts, and places that are a variable or a member of another place. -/
def placeRegistry : Registry :=
  { Registry.empty with
    defs := Registry.empty.defs ++
      [.record "Chain" [("text", .symbol), ("rest", .named "Chain")],
       .union "Place" [⟨"Var", [("id", .id)]⟩,
         ⟨"Member", [("base", .named "Place"), ("name", .symbol)]⟩]] }

def placeRelation : Relation :=
  ⟨"place", [("id", .id), ("chain", .named "Chain"), ("at", .named "Place"), ("text", .symbol)]⟩

/-- Two tuples with delimiters, quotes, backslashes and line breaks in their texts. -/
def placeTuples : List Tuple :=
  [[.number (-1), .record [.symbol "a\", \\", .record [.symbol "]\r\n", .nil]],
    .branch "Member" [.branch "Var" [.number 7], .symbol "$Var(1)"], .symbol " nil,\n\""],
   [.number 0, .nil, .branch "Var" [.number 0], .symbol ""]]

def placeFacts : FactSet := ⟨[("place", placeRelation, placeTuples)]⟩

theorem table?_placeFacts {name : String} {r : Relation} {tuples : List Tuple}
    (h : placeFacts.table? name = some (r, tuples)) :
    name = "place" ∧ r = placeRelation ∧ tuples = placeTuples := by
  have hmem := Entries.mem_of_lookup h
  simpa [placeFacts] using hmem

theorem wellFormed_placeFacts : placeFacts.WellFormed where
  ascending := List.pairwise_singleton _ _
  name_eq h := by
    obtain ⟨rfl, rfl, rfl⟩ := table?_placeFacts h
    rfl
  length_eq h := by
    obtain ⟨rfl, rfl, rfl⟩ := table?_placeFacts h
    decide

theorem portable_placeTuples : Portable placeRegistry placeRelation placeTuples := by
  have hid : placeRegistry.classify .id = .ok .nodeId := rfl
  have hchain : placeRegistry.classify (.named "Chain") = .ok .record := rfl
  have hplace : placeRegistry.classify (.named "Place") = .ok .union := rfl
  have hsymbol : placeRegistry.classify .symbol = .ok .symbol := rfl
  have hcell : placeRegistry.record? "Chain" =
      some [("text", .symbol), ("rest", .named "Chain")] := rfl
  have hbranches : placeRegistry.union? "Place" =
      some [⟨"Var", [("id", .id)]⟩,
        ⟨"Member", [("base", .named "Place"), ("name", .symbol)]⟩] := rfl
  refine ⟨by decide, ?_⟩
  intro t ht
  constructor
  · rcases List.mem_cons.mp ht with rfl | ht
    · simp [placeRelation, HaveTypes, HasType, hid, hchain, hplace, hsymbol, hcell, hbranches,
        ColumnType.name]
    · rw [List.mem_singleton.mp ht]
      simp [placeRelation, HaveTypes, HasType, hid, hchain, hplace, hsymbol, hcell, hbranches,
        ColumnType.name]
  · rcases List.mem_cons.mp ht with rfl | ht
    · decide
    · rw [List.mem_singleton.mp ht]
      decide

theorem read_files_placeFacts :
    placeFacts.WellFormed ∧ Portable placeRegistry placeRelation placeTuples ∧
      read placeRegistry placeFacts.files [placeRelation] = .ok placeFacts := by
  refine ⟨wellFormed_placeFacts, portable_placeTuples, ?_⟩
  refine (read_files wellFormed_placeFacts ?_ (List.Perm.refl _)).1
  intro name r tuples h
  obtain ⟨rfl, rfl, rfl⟩ := table?_placeFacts h
  exact portable_placeTuples

end FactSet

end TreeFacts
