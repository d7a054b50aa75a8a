import Mathlib.Data.List.Nodup
import TreeFacts.Proofs.Fact.Accepted
import TreeFacts.Proofs.Fact.Transport

namespace TreeFacts

namespace Table

theorem reverse_endField_ne_nil (row : List String) (field : List Char) :
    (endField row field).reverse ≠ [] := by
  simp [endField]

/-- Empty lines are no rows. -/
theorem ne_nil_of_splitRows {place : Place} {depth : Nat} {row : List String} {field cs : List Char}
    {rows : List (List String)} (h : splitRows place depth row field cs = .ok rows) :
    ∀ found ∈ rows, found ≠ [] := by
  induction cs generalizing place depth row field rows with
  | nil =>
    rcases splitRows_nil_eq_ok h with rfl | ⟨-, -, rfl⟩
    · intro found hfound
      rw [List.mem_singleton.mp hfound]
      exact reverse_endField_ne_nil row field
    · simp
  | cons c cs ih =>
    cases splitRows_cons_eq_ok h with
    | skip _ h => exact ih h
    | keep _ h => exact ih h
    | endField h => exact ih h
    | endRow hmore =>
      exact List.forall_mem_cons.mpr ⟨reverse_endField_ne_nil row field, ih hmore⟩

end Table

namespace FactSet

variable {registry : Registry} {r : Relation}

theorem haveTypes_of_fields {row : List String} {columns : FieldTypes} {t : Tuple}
    (hlength : row.length = columns.length)
    (h : (row.zip columns).mapM
      (fun p : String × String × ColumnType => FactValue.parse registry p.2.2 p.1) = .ok t) :
    HaveTypes registry t columns ∧ FactValue.allHavePlainTags t = true := by
  induction row generalizing columns t with
  | nil =>
    cases columns with
    | nil =>
      cases h
      simp [HaveTypes, FactValue.allHavePlainTags]
    | cons column columns => cases hlength
  | cons text row ih =>
    cases columns with
    | nil => cases hlength
    | cons column columns =>
      rw [List.zip_cons_cons, List.mapM_cons] at h
      obtain ⟨v, hv, h⟩ := bind_eq_ok.mp h
      obtain ⟨vs, hvs, h⟩ := bind_eq_ok.mp h
      cases h
      have hrest : row.length = columns.length := by simpa using hlength
      obtain ⟨htype, hplain⟩ := FactValue.parse_typed hv
      obtain ⟨htypes, hplains⟩ := ih hrest hvs
      simp only [HaveTypes, FactValue.allHavePlainTags, Bool.and_eq_true]
      exact ⟨⟨htype, htypes⟩, hplain, hplains⟩

/-- A row that is accepted is a tuple that can be written and found again. -/
theorem restorable_of_parseRow {index : Nat} {row : List String} {t : Tuple} (hrow : row ≠ [])
    (h : parseRow registry r index row = .ok t) :
    t ≠ [] ∧ HaveTypes registry t r.columns ∧ FactValue.allHavePlainTags t = true := by
  have hwidth := parseRow_length h
  unfold parseRow at h
  split at h
  next hlength =>
    refine ⟨?_, haveTypes_of_fields hlength h⟩
    rintro rfl
    apply hrow
    apply List.eq_nil_of_length_eq_zero
    rw [hlength, ← hwidth, List.length_nil]
  next => cases h

theorem restorable_of_fileTuples {dir : Directory} {tuples : List Tuple}
    (h : fileTuples registry dir r = .ok tuples) : Restorable registry r tuples := by
  obtain ⟨_, _, rows, -, -, hrows, hparse⟩ := fileTuples_eq_ok h
  intro t ht
  obtain ⟨index, row, hrow, ht⟩ := parseRows_eq_ok hparse t ht
  exact restorable_of_parseRow (Table.ne_nil_of_splitRows hrows row hrow) ht

theorem relations_perm {fs : FactSet} {relations : List Relation} (wf : fs.WellFormed)
    (hnames : (relations.map (·.name)).Nodup)
    (hopen : ∀ r ∈ relations, ∃ tuples, fs.table? r.name = some (r, tuples))
    (hclosed : ∀ n, n ∉ relations.map (·.name) → fs.table? n = none) :
    relations.Perm fs.relations := by
  have hnames' : (fs.relations.map (·.name)).Nodup := by
    rw [map_name_relations wf]
    exact wf.ascending.nodup_keys
  have hnodup := List.Nodup.of_map _ hnames
  have hnodup' := List.Nodup.of_map _ hnames'
  refine (List.perm_ext_iff_of_nodup hnodup hnodup').mpr fun r => ?_
  constructor
  · intro hr
    obtain ⟨tuples, htable⟩ := hopen r hr
    exact List.mem_map.mpr ⟨_, Entries.mem_of_lookup htable, rfl⟩
  · intro hr
    obtain ⟨tuples, htable⟩ := mem_relations wf hr
    by_cases hmem : r.name ∈ relations.map (·.name)
    · obtain ⟨r', hr', hname⟩ := List.mem_map.mp hmem
      obtain ⟨tuples', htable'⟩ := hopen r' hr'
      rw [hname, htable] at htable'
      cases htable'
      exact hr'
    · rw [hclosed _ hmem] at htable
      cases htable

/-- Whatever is read has the types of its columns, and in the files written for it stands the same
again: each spelling that is accepted has one that is written for it. -/
theorem read_normal {dir : Directory} {relations : List Relation} {fs : FactSet}
    (hnames : (relations.map (·.name)).Nodup) (h : read registry dir relations = .ok fs) :
    (relations.Perm fs.relations ∧
      ∀ {name r tuples}, fs.table? name = some (r, tuples) →
        ∀ t ∈ tuples, t.length = r.arity ∧ HaveTypes registry t r.columns) ∧
    read registry fs.files relations = .ok fs ∧
      ((∀ name ∈ dir.map (·.1), isFileName name = true) → fs.write = .ok fs.files) := by
  have wf := wellFormed_empty.read h
  have hread : ∀ r ∈ relations, ∃ tuples, fileTuples registry dir r = .ok tuples ∧
      fs.table? r.name = some (r, tuples) := fun r hr => table?_of_mem_relations hnames h hr
  have hperm := relations_perm wf hnames (fun r hr => (hread r hr).imp fun _ ht => ht.2)
    fun n hn => table?_of_notMem_relations h hn
  have htables : ∀ {name r tuples}, fs.table? name = some (r, tuples) →
      Restorable registry r tuples := by
    intro name r tuples htable
    have hname := wf.name_eq htable
    have hr : r ∈ relations :=
      hperm.mem_iff.mpr (List.mem_map.mpr ⟨_, Entries.mem_of_lookup htable, rfl⟩)
    obtain ⟨tuples', hfile, htable'⟩ := hread r hr
    rw [hname, htable] at htable'
    cases htable'
    exact restorable_of_fileTuples hfile
  refine ⟨⟨hperm, ?_⟩, read_of_restorable wf htables hperm, ?_⟩
  · intro name r tuples htable t ht
    exact ⟨wf.length_eq htable t ht, (htables htable t ht).2.1⟩
  · intro hfiles
    refine write_eq_ok.mpr fun name hname => ?_
    rw [← map_name_relations wf] at hname
    obtain ⟨r, hr, rfl⟩ := List.mem_map.mp hname
    obtain ⟨tuples, hfile, -⟩ := hread r (hperm.mem_iff.mpr hr)
    obtain ⟨bytes, _, _, hbytes, -⟩ := fileTuples_eq_ok hfile
    exact hfiles _ (List.mem_map.mpr ⟨_, Entries.mem_of_lookup hbytes, rfl⟩)

/-- A row as no writer spells it: a sign in front of a number, a record and a branch without quotes
around them, a bare symbol, blanks, and line ends of two characters with empty lines. -/
def loosePlaces : String :=
  "\r\n+5, [ab , nil],$Member( $Var(7) , \"x\" ),\" plain\"\r\n\n"

def looseDirectory : Directory := [("place.csv", loosePlaces.toUTF8)]

def looseFacts : FactSet :=
  ⟨[("place", placeRelation,
    [[.number 5, .record [.symbol "ab", .nil],
      .branch "Member" [.branch "Var" [.number 7], .symbol "x"], .symbol " plain"]])]⟩

theorem read_normal_loosePlaces :
    read placeRegistry looseDirectory [placeRelation] = .ok looseFacts ∧
      read placeRegistry looseFacts.files [placeRelation] = .ok looseFacts ∧
      looseFacts.write = .ok looseFacts.files := by
  have hrows : Table.parse loosePlaces = .ok
      [["+5", " [ab , nil]", "$Member( $Var(7) , \"x\" )", " plain"]] := by decide +kernel
  have hadd : addRows placeRegistry placeRelation (empty.declare placeRelation) 0
      [["+5", " [ab , nil]", "$Member( $Var(7) , \"x\" )", " plain"]] = .ok looseFacts := by
    decide +kernel
  have hfile : looseDirectory.lookup (fileName placeRelation.name) = some loosePlaces.toUTF8 := by
    rfl
  have hread : read placeRegistry looseDirectory [placeRelation] = .ok looseFacts := by
    rw [read, List.foldlM_cons, readRelation, hfile]
    simp only [Text.decode?_toUTF8, hrows, hadd]
    rfl
  have hnames : ([placeRelation].map (·.name)).Nodup := List.nodup_singleton _
  obtain ⟨-, hagain, hwrite⟩ := read_normal hnames hread
  refine ⟨hread, hagain, hwrite ?_⟩
  intro name hname
  rw [List.mem_singleton.mp hname]
  decide +kernel

end FactSet

end TreeFacts
