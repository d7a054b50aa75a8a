import Mathlib.Data.List.Nodup
import TreeFacts.Fact.Files
import TreeFacts.Proofs.Fact.Set

namespace TreeFacts.FactSet

/-- The rows of a table as tuples of a relation. -/
def parseRows (registry : Registry) (r : Relation) :
    Nat → List (List String) → Except Error (List Tuple)
  | _, [] => .ok []
  | index, row :: rows => do
    let t ← parseRow registry r index row
    return t :: (← parseRows registry r (index + 1) rows)

/-- What the file of a relation holds, each row once. -/
def fileTuples (registry : Registry) (dir : Directory) (r : Relation) :
    Except Error (List Tuple) :=
  match dir.lookup (fileName r.name) with
  | none => .error (.missingOutput r.name)
  | some bytes =>
    match Text.decode? bytes with
    | none => .error .io
    | some text =>
      match Table.parse text with
      | .error fault => .error (.parse fault)
      | .ok rows => parseRows registry r 0 rows

/-- The facts in the file of a relation, if it can be read. -/
def fileFacts (registry : Registry) (dir : Directory) (r : Relation) : List Fact :=
  match fileTuples registry dir r with
  | .ok tuples => tuples.map (r.name, ·)
  | .error _ => []

variable {registry : Registry} {dir : Directory} {r : Relation} {relations : List Relation}
  {fs fs' : FactSet} {tuples : List Tuple} {rows : List (List String)} {index : Nat} {n : String}

theorem parseRow_length {row : List String} {t : Tuple}
    (h : parseRow registry r index row = .ok t) : t.length = r.arity := by
  unfold parseRow at h
  split at h
  next hrow =>
    have hlength := (mapM_eq_ok.mp h).length_eq
    rw [List.length_zip, hrow] at hlength
    rw [← hlength, Relation.arity, Nat.min_self]
  next => cases h

theorem parseRows_eq_ok (h : parseRows registry r index rows = .ok tuples) :
    ∀ t ∈ tuples, ∃ i, ∃ row ∈ rows, parseRow registry r i row = .ok t := by
  induction rows generalizing index tuples with
  | nil =>
    cases h
    simp
  | cons row rows ih =>
    obtain ⟨t, ht, h⟩ := bind_eq_ok.mp h
    obtain ⟨ts, hts, h⟩ := bind_eq_ok.mp h
    cases h
    rw [List.forall_mem_cons]
    refine ⟨⟨index, row, List.mem_cons_self, ht⟩, fun u hu => ?_⟩
    obtain ⟨i, found, hfound, hparse⟩ := ih hts u hu
    exact ⟨i, found, List.mem_cons_of_mem _ hfound, hparse⟩

theorem fileTuples_eq_ok (h : fileTuples registry dir r = .ok tuples) :
    ∃ bytes text rows, dir.lookup (fileName r.name) = some bytes ∧
      Text.decode? bytes = some text ∧ Table.parse text = .ok rows ∧
      parseRows registry r 0 rows = .ok tuples := by
  unfold fileTuples at h
  split at h
  next => cases h
  next bytes hbytes =>
    split at h
    next => cases h
    next text htext =>
      split at h
      next => cases h
      next rows hrows => exact ⟨bytes, text, rows, hbytes, htext, hrows, h⟩

theorem fileTuples_length (h : fileTuples registry dir r = .ok tuples) :
    ∀ t ∈ tuples, t.length = r.arity := by
  obtain ⟨-, -, rows, -, -, -, hparse⟩ := fileTuples_eq_ok h
  intro t ht
  obtain ⟨i, row, -, hrow⟩ := parseRows_eq_ok hparse t ht
  exact parseRow_length hrow

/-- Adding the rows of a table one after the other is adding what they are read as. -/
theorem addRows_eq_ok_iff :
    addRows registry r fs index rows = .ok fs' ↔
      ∃ tuples, parseRows registry r index rows = .ok tuples ∧
        fs.addAll (tuples.map (r.name, ·)) = .ok fs' := by
  induction rows generalizing fs index with
  | nil => simp [addRows, parseRows, addAll]
  | cons row rows ih =>
    rw [addRows, parseRows, bind_eq_ok]
    constructor
    · rintro ⟨t, ht, h⟩
      obtain ⟨fs₁, hadd, h⟩ := bind_eq_ok.mp h
      obtain ⟨ts, hts, hall⟩ := ih.mp h
      refine ⟨t :: ts, ?_, ?_⟩
      · rw [ht, ok_bind, hts, ok_bind, pure_eq_ok]
      · rw [addAll, List.map_cons, List.foldlM_cons, hadd, ok_bind]
        exact hall
    · rintro ⟨tuples, h, hall⟩
      obtain ⟨t, ht, h⟩ := bind_eq_ok.mp h
      obtain ⟨ts, hts, h⟩ := bind_eq_ok.mp h
      cases h
      rw [addAll, List.map_cons, List.foldlM_cons] at hall
      obtain ⟨fs₁, hadd, hall⟩ := bind_eq_ok.mp hall
      exact ⟨t, ht, bind_eq_ok.mpr ⟨fs₁, hadd, ih.mpr ⟨ts, hts, hall⟩⟩⟩

theorem readRelation_eq_ok_iff :
    readRelation registry dir fs r = .ok fs' ↔
      ∃ tuples, fileTuples registry dir r = .ok tuples ∧
        (fs.declare r).addAll (tuples.map (r.name, ·)) = .ok fs' := by
  unfold readRelation fileTuples
  cases dir.lookup (fileName r.name) with
  | none => simp
  | some bytes =>
    dsimp only
    cases Text.decode? bytes with
    | none => simp
    | some text =>
      dsimp only
      cases Table.parse text with
      | error fault => simp
      | ok rows => exact addRows_eq_ok_iff

theorem fileFacts_of_fileTuples (h : fileTuples registry dir r = .ok tuples) :
    fileFacts registry dir r = tuples.map (r.name, ·) := by
  rw [fileFacts, h]

theorem name_of_mem_fileFacts {fact : Fact} (h : fact ∈ fileFacts registry dir r) :
    fact.1 = r.name := by
  unfold fileFacts at h
  split at h
  next =>
    obtain ⟨t, -, rfl⟩ := List.mem_map.mp h
    rfl
  next => cases h

theorem tuplesUnder_fileFacts_of_ne (h : r.name ≠ n) :
    tuplesUnder n (fileFacts registry dir r) = [] :=
  tuplesUnder_eq_nil fun _ hfact => (name_of_mem_fileFacts hfact).trans_ne h

theorem WellFormed.addAll {facts : List Fact} (wf : fs.WellFormed) (h : fs.addAll facts = .ok fs') :
    fs'.WellFormed := by
  induction facts generalizing fs with
  | nil =>
    cases h
    exact wf
  | cons fact facts ih =>
    rw [FactSet.addAll, List.foldlM_cons] at h
    obtain ⟨fs₁, hadd, h⟩ := bind_eq_ok.mp h
    exact ih (wf.add hadd) h

theorem table?_of_readRelation (h : readRelation registry dir fs r = .ok fs') (n : String) :
    fs'.table? n = ((fs.declare r).table? n).map fun table =>
      (table.1, table.2 ++ tuplesUnder n (fileFacts registry dir r)) := by
  obtain ⟨tuples, htuples, hall⟩ := readRelation_eq_ok_iff.mp h
  rw [table?_of_addAll hall, fileFacts_of_fileTuples htuples]

/-- Reading opens all relations and puts in the facts of their files, one file after the other. -/
theorem table?_of_read (h : relations.foldlM (readRelation registry dir) fs = .ok fs')
    (n : String) :
    fs'.table? n = ((relations.foldl declare fs).table? n).map fun table =>
      (table.1, table.2 ++ tuplesUnder n (relations.flatMap (fileFacts registry dir))) := by
  induction relations generalizing fs with
  | nil =>
    cases h
    simp [tuplesUnder]
  | cons r relations ih =>
    rw [List.foldlM_cons] at h
    obtain ⟨fs₁, hread, h⟩ := bind_eq_ok.mp h
    rw [ih h, table?_foldl_declare, table?_of_readRelation hread, List.foldl_cons,
      table?_foldl_declare, List.flatMap_cons, tuplesUnder_append]
    cases htable : (fs.declare r).table? n with
    | some table => simp
    | none =>
      -- The relation has just been opened, so the one without a table is another.
      have hne : r.name ≠ n := by
        intro heq
        rw [table?_declare, if_pos heq.symm] at htable
        cases htable
      rw [tuplesUnder_fileFacts_of_ne hne, List.nil_append]
      rfl

/-- Each time a relation is read, the rows of its file come once more. -/
theorem tuplesUnder_fileFacts
    (h : ∀ r ∈ relations, r.name = n → fileTuples registry dir r = .ok tuples) :
    tuplesUnder n (relations.flatMap (fileFacts registry dir)) =
      (List.replicate ((relations.map (·.name)).count n) tuples).flatten := by
  induction relations with
  | nil => rfl
  | cons r relations ih =>
    obtain ⟨hfirst, hrest⟩ := List.forall_mem_cons.mp h
    rw [List.flatMap_cons, tuplesUnder_append, ih hrest, List.map_cons]
    by_cases hn : r.name = n
    · subst hn
      rw [fileFacts_of_fileTuples (hfirst rfl), tuplesUnder_map_self, List.count_cons_self,
        List.replicate_succ, List.flatten_cons]
    · rw [tuplesUnder_fileFacts_of_ne hn, List.nil_append, List.count_cons_of_ne hn]

theorem fileTuples_of_read (h : relations.foldlM (readRelation registry dir) fs = .ok fs') :
    ∀ r ∈ relations, ∃ tuples, fileTuples registry dir r = .ok tuples := by
  induction relations generalizing fs with
  | nil => simp
  | cons r relations ih =>
    rw [List.foldlM_cons] at h
    obtain ⟨fs₁, hread, h⟩ := bind_eq_ok.mp h
    obtain ⟨tuples, htuples, -⟩ := readRelation_eq_ok_iff.mp hread
    exact List.forall_mem_cons.mpr ⟨⟨tuples, htuples⟩, ih h⟩

theorem WellFormed.read (wf : fs.WellFormed)
    (h : relations.foldlM (readRelation registry dir) fs = .ok fs') : fs'.WellFormed := by
  induction relations generalizing fs with
  | nil =>
    cases h
    exact wf
  | cons r relations ih =>
    rw [List.foldlM_cons] at h
    obtain ⟨fs₁, hread, h⟩ := bind_eq_ok.mp h
    obtain ⟨tuples, -, hall⟩ := readRelation_eq_ok_iff.mp hread
    exact ih ((wf.declare r).addAll hall) h

/-- Relations with names of their own can be read if their files can. -/
theorem exists_read (hnames : (relations.map (·.name)).Nodup)
    (hfiles : ∀ r ∈ relations, ∃ tuples, fileTuples registry dir r = .ok tuples)
    (hfresh : ∀ r ∈ relations, fs.table? r.name = none) :
    ∃ fs', relations.foldlM (readRelation registry dir) fs = .ok fs' := by
  induction relations generalizing fs with
  | nil => exact ⟨fs, rfl⟩
  | cons r relations ih =>
    obtain ⟨hother, hrest⟩ := List.nodup_cons.mp hnames
    obtain ⟨tuples, htuples⟩ := hfiles r List.mem_cons_self
    have hopen : (fs.declare r).table? r.name = some (r, []) := by
      rw [table?_declare, if_pos rfl, hfresh r List.mem_cons_self, Option.getD_none]
    obtain ⟨fs₁, hall⟩ : ∃ fs₁, (fs.declare r).addAll (tuples.map (r.name, ·)) = .ok fs₁ := by
      refine addAll_isOk fun fact hfact => ?_
      obtain ⟨t, ht, rfl⟩ := List.mem_map.mp hfact
      exact ⟨r, [], hopen, fileTuples_length htuples t ht⟩
    have hread : readRelation registry dir fs r = .ok fs₁ :=
      readRelation_eq_ok_iff.mpr ⟨tuples, htuples, hall⟩
    have hfresh₁ : ∀ r' ∈ relations, fs₁.table? r'.name = none := by
      intro r' hr'
      have hne : r'.name ≠ r.name := fun heq => hother (List.mem_map.mpr ⟨r', hr', heq⟩)
      rw [table?_of_readRelation hread, table?_declare, if_neg hne,
        hfresh r' (List.mem_cons_of_mem _ hr')]
      rfl
    obtain ⟨fs', hfs'⟩ := ih hrest (fun r' hr' => hfiles r' (List.mem_cons_of_mem _ hr')) hfresh₁
    exact ⟨fs', by rw [List.foldlM_cons, hread, ok_bind, hfs']⟩

/-- A relation that is read once holds what its file holds. -/
theorem table?_of_mem_relations (hnames : (relations.map (·.name)).Nodup)
    (h : read registry dir relations = .ok fs) (hr : r ∈ relations) :
    ∃ tuples, fileTuples registry dir r = .ok tuples ∧ fs.table? r.name = some (r, tuples) := by
  obtain ⟨tuples, htuples⟩ := fileTuples_of_read h r hr
  have hfind : relations.find? (·.name == r.name) = some r :=
    (find?_name_eq_some hnames).mpr ⟨hr, rfl⟩
  have hfile : ∀ r' ∈ relations, r'.name = r.name → fileTuples registry dir r' = .ok tuples := by
    intro r' hr' hname
    have hfind' : relations.find? (·.name == r.name) = some r' :=
      (find?_name_eq_some hnames).mpr ⟨hr', hname⟩
    cases hfind.symm.trans hfind'
    exact htuples
  have hcount : (relations.map (·.name)).count r.name = 1 :=
    List.count_eq_one_of_mem hnames (List.mem_map.mpr ⟨r, hr, rfl⟩)
  refine ⟨tuples, htuples, ?_⟩
  rw [table?_of_read h, ← ofRelations, table?_ofRelations, hfind, tuplesUnder_fileFacts hfile,
    hcount]
  simp

theorem table?_of_notMem_relations (h : read registry dir relations = .ok fs)
    (hn : n ∉ relations.map (·.name)) : fs.table? n = none := by
  have hfind : relations.find? (·.name == n) = none := by
    refine List.find?_eq_none.mpr fun r hr hname => hn ?_
    exact List.mem_map.mpr ⟨r, hr, beq_iff_eq.mp hname⟩
  rw [table?_of_read h, ← ofRelations, table?_ofRelations, hfind]
  rfl

end TreeFacts.FactSet
