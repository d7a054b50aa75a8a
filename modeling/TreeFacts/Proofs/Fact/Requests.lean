import TreeFacts.Program.Interface
import TreeFacts.Proofs.Fact.Files

namespace TreeFacts

namespace Program.Interface

variable {i : Interface} {name : String} {r : Relation} {names : List String}
  {relations : List Relation}

theorem name_of_relation? (h : i.relation? name = some r) : r.name = name :=
  beq_iff_eq.mp (List.find?_some (p := fun r : Relation => r.name == name) h)

/-- Every name stands for one relation, also where it is there more than once. -/
theorem select_eq_ok :
    i.select names = .ok relations ↔
      List.Forall₂ (fun name r => i.relation? name = some r) names relations := by
  rw [select, mapM_eq_ok]
  constructor
  · intro h
    refine h.imp fun name r hr => ?_
    split at hr
    next found hfound =>
      cases hr
      exact hfound
    next => cases hr
  · intro h
    refine h.imp fun name r hr => ?_
    simp only [hr]

theorem map_name_of_select (h : i.select names = .ok relations) :
    relations.map (·.name) = names := by
  have hall := select_eq_ok.mp h
  clear h
  induction hall with
  | nil => rfl
  | cons hr _ ih => rw [List.map_cons, name_of_relation? hr, ih]

theorem find?_of_select (h : i.select names = .ok relations) (n : String) :
    relations.find? (·.name == n) = if n ∈ names then i.relation? n else none := by
  have hall := select_eq_ok.mp h
  clear h
  induction hall with
  | nil => simp
  | @cons name r names relations hr _ ih =>
    rw [List.find?_cons, name_of_relation? hr]
    by_cases hn : name = n
    · subst hn
      simp [hr]
    · rw [beq_eq_false_iff_ne.mpr hn, ih]
      simp [Ne.symm hn]

theorem mem_of_select (h : i.select names = .ok relations) (hname : name ∈ names) :
    ∃ r ∈ relations, i.relation? name = some r :=
  exists_of_forall₂ (select_eq_ok.mp h).flip hname

theorem relation?_of_mem (h : i.select names = .ok relations) (hr : r ∈ relations) :
    r.name ∈ names ∧ i.relation? r.name = some r := by
  obtain ⟨name, hname, hrelation⟩ := exists_of_forall₂ (select_eq_ok.mp h) hr
  rw [name_of_relation? hrelation]
  exact ⟨hname, hrelation⟩

theorem exists_select (h : ∀ name ∈ names, ∃ r, i.relation? name = some r) :
    ∃ relations, i.select names = .ok relations := by
  induction names with
  | nil => exact ⟨[], rfl⟩
  | cons name names ih =>
    obtain ⟨⟨r, hr⟩, hrest⟩ := List.forall_mem_cons.mp h
    obtain ⟨relations, hrelations⟩ := ih hrest
    exact ⟨r :: relations, select_eq_ok.mpr (.cons hr (select_eq_ok.mp hrelations))⟩

end Program.Interface

namespace FactSet

open Program (Interface)

theorem flatten_replicate_eq_self {α : Type} {k : Nat} {as : List α} :
    (List.replicate k as).flatten = as ↔ k = 1 ∨ as = [] := by
  constructor
  · intro h
    have hlength := congrArg List.length h
    rw [List.length_flatten, List.map_replicate, List.sum_replicate_nat] at hlength
    rcases Nat.eq_zero_or_pos as.length with hempty | hpos
    · exact .inr (List.eq_nil_of_length_eq_zero hempty)
    · exact .inl (Nat.eq_of_mul_eq_mul_right hpos (hlength.trans (Nat.one_mul _).symm))
  · rintro (rfl | rfl)
    · simp
    · simp

/-- What the files of the named relations hold. -/
def Hold (i : Interface) (registry : Registry) (dir : Directory) (names : List String)
    (rows : String → List Tuple) : Prop :=
  ∀ name ∈ names, ∃ r, i.relation? name = some r ∧ fileTuples registry dir r = .ok (rows name)

variable {i : Interface} {registry : Registry} {dir : Directory} {names distinct : List String}
  {relations : List Relation} {rows : String → List Tuple} {fs : FactSet} {n : String}

theorem exists_hold (hselect : i.select names = .ok relations)
    (hfiles : ∀ r ∈ relations, ∃ tuples, fileTuples registry dir r = .ok tuples) :
    ∃ rows, Hold i registry dir names rows := by
  have hall : ∀ name, ∃ tuples, name ∈ names →
      ∃ r, i.relation? name = some r ∧ fileTuples registry dir r = .ok tuples := by
    intro name
    by_cases hname : name ∈ names
    · obtain ⟨r, hr, hrelation⟩ := Interface.mem_of_select hselect hname
      obtain ⟨tuples, htuples⟩ := hfiles r hr
      exact ⟨tuples, fun _ => ⟨r, hrelation, htuples⟩⟩
    · exact ⟨[], fun h => absurd h hname⟩
  choose rows hrows using hall
  exact ⟨rows, hrows⟩

theorem tuplesUnder_requests (hselect : i.select names = .ok relations)
    (hrows : Hold i registry dir names rows) (hn : n ∈ names) :
    tuplesUnder n (relations.flatMap (fileFacts registry dir)) =
      (List.replicate (names.count n) (rows n)).flatten := by
  obtain ⟨r, hr, htuples⟩ := hrows n hn
  rw [← Interface.map_name_of_select hselect]
  refine tuplesUnder_fileFacts fun r' hr' hname => ?_
  have hrelation := (Interface.relation?_of_mem hselect hr').2
  rw [hname, hr] at hrelation
  cases hrelation
  exact htuples

theorem table?_of_requests (hselect : i.select names = .ok relations)
    (hread : read registry dir relations = .ok fs) (hrows : Hold i registry dir names rows)
    (n : String) :
    fs.table? n = if n ∈ names then (i.relation? n).map fun r =>
      (r, (List.replicate (names.count n) (rows n)).flatten) else none := by
  rw [table?_of_read hread, ← ofRelations, table?_ofRelations, Interface.find?_of_select hselect]
  split
  next hn =>
    rw [tuplesUnder_requests hselect hrows hn, Option.map_map]
    rfl
  next => rfl

theorem facts_of_requests (hselect : i.select names = .ok relations)
    (hread : read registry dir relations = .ok fs) (hrows : Hold i registry dir names rows) :
    ∀ name ∈ names,
      fs.facts name = .ok (List.replicate (names.count name) (rows name)).flatten := by
  intro name hname
  obtain ⟨r, hr, -⟩ := hrows name hname
  refine facts_of_table? (r := r) ?_
  rw [table?_of_requests hselect hread hrows, if_pos hname, hr, Option.map_some]

/-- Requests whose repetitions change nothing: only files without rows are asked for again. -/
def Harmless (names : List String) (rows : String → List Tuple) : Prop :=
  ∀ name ∈ names, names.count name = 1 ∨ rows name = []

theorem Harmless.of_nodup (h : names.Nodup) : Harmless names rows :=
  fun _ hname => .inl (List.count_eq_one_of_mem h hname)

theorem facts_iff_harmless (hselect : i.select names = .ok relations)
    (hread : read registry dir relations = .ok fs) (hrows : Hold i registry dir names rows) :
    (∀ name ∈ names, fs.facts name = .ok (rows name)) ↔ Harmless names rows := by
  refine forall₂_congr fun name hname => ?_
  rw [facts_of_requests hselect hread hrows name hname, Except.ok.injEq]
  exact flatten_replicate_eq_self

theorem table?_of_harmless (hselect : i.select names = .ok relations)
    (hread : read registry dir relations = .ok fs) (hrows : Hold i registry dir names rows)
    (h : Harmless names rows) (n : String) :
    fs.table? n = if n ∈ names then (i.relation? n).map fun r => (r, rows n) else none := by
  rw [table?_of_requests hselect hread hrows]
  split
  next hn => rw [flatten_replicate_eq_self.mpr (h n hn)]
  next => rfl

/-- What can be read for some requests can be read for the same ones without repetitions. -/
theorem exists_read_distinct (hrows : Hold i registry dir distinct rows)
    (hdistinct : distinct.Nodup) :
    ∃ relations fs, i.select distinct = .ok relations ∧ read registry dir relations = .ok fs := by
  obtain ⟨relations, hselect⟩ : ∃ relations, i.select distinct = .ok relations := by
    refine Interface.exists_select fun name hname => ?_
    obtain ⟨r, hr, -⟩ := hrows name hname
    exact ⟨r, hr⟩
  have hnames : (relations.map (·.name)).Nodup := by
    rwa [Interface.map_name_of_select hselect]
  have hfiles : ∀ r ∈ relations, ∃ tuples, fileTuples registry dir r = .ok tuples := by
    intro r hr
    obtain ⟨hname, hrelation⟩ := Interface.relation?_of_mem hselect hr
    obtain ⟨r', hr', htuples⟩ := hrows r.name hname
    cases hrelation.symm.trans hr'
    exact ⟨rows r.name, htuples⟩
  obtain ⟨fs, hread⟩ := exists_read hnames hfiles fun r _ => table?_empty r.name
  exact ⟨relations, fs, hselect, hread⟩

/-- What reading gives for a list of requests. A relation holds the rows of its file as often as it
is asked for, so that its facts are those rows, and the result that for the list without
repetitions, just if no file with rows is asked for twice. -/
theorem read_requests (hselect : i.select names = .ok relations)
    (hread : read registry dir relations = .ok fs) :
    ∃ rows : String → List Tuple, Hold i registry dir names rows ∧
      (∀ name ∈ names,
        fs.facts name = .ok (List.replicate (names.count name) (rows name)).flatten) ∧
      ((∀ name ∈ names, fs.facts name = .ok (rows name)) ↔ Harmless names rows) ∧
      ∀ distinct : List String, distinct.Nodup → (∀ name, name ∈ distinct ↔ name ∈ names) →
        ∃ once fs', i.select distinct = .ok once ∧ read registry dir once = .ok fs' ∧
          (∀ name ∈ names, fs'.facts name = .ok (rows name)) ∧
          (fs' = fs ↔ Harmless names rows) := by
  obtain ⟨rows, hrows⟩ := exists_hold hselect (fileTuples_of_read hread)
  have honce := facts_iff_harmless hselect hread hrows
  refine ⟨rows, hrows, facts_of_requests hselect hread hrows, honce, ?_⟩
  intro distinct hdistinct hmem
  have hrows' : Hold i registry dir distinct rows :=
    fun name hname => hrows name ((hmem name).mp hname)
  obtain ⟨once, fs', hselect', hread'⟩ := exists_read_distinct hrows' hdistinct
  have hharmless' : Harmless distinct rows := .of_nodup hdistinct
  have hfacts' : ∀ name ∈ names, fs'.facts name = .ok (rows name) := by
    intro name hname
    exact (facts_iff_harmless hselect' hread' hrows').mpr hharmless' name ((hmem name).mpr hname)
  refine ⟨once, fs', hselect', hread', hfacts', ?_⟩
  constructor
  · rintro rfl
    exact honce.mp hfacts'
  · intro hharmless
    refine ext_of_table? (wellFormed_empty.read hread').ascending
      (wellFormed_empty.read hread).ascending fun n => ?_
    rw [table?_of_harmless hselect' hread' hrows' hharmless',
      table?_of_harmless hselect hread hrows hharmless]
    simp only [hmem]

def primes : Relation := ⟨"prime", [("n", .number)]⟩

def labels : Relation := ⟨"label", [("n", .number), ("text", .symbol)]⟩

/-- A program with a relation of numbers and one of their labels. -/
def numberInterface : Interface := ⟨[], [primes, labels], []⟩

/-- Two numbers without labels. -/
def numberFiles : Directory := [("label.csv", "".toUTF8), ("prime.csv", "2\n7\n".toUTF8)]

def repeatedFacts : FactSet :=
  ⟨[("label", labels, []),
    ("prime", primes, [[.number 2], [.number 7], [.number 2], [.number 7]])]⟩

theorem read_requests_numbers :
    numberInterface.select ["prime", "label", "prime"] = .ok [primes, labels, primes] ∧
      read Registry.empty numberFiles [primes, labels, primes] = .ok repeatedFacts ∧
      ∃ once fs, numberInterface.select ["prime", "label"] = .ok once ∧
        read Registry.empty numberFiles once = .ok fs ∧ fs ≠ repeatedFacts := by
  have hselect : numberInterface.select ["prime", "label", "prime"] =
      .ok [primes, labels, primes] := by decide +kernel
  have hread : read Registry.empty numberFiles [primes, labels, primes] = .ok repeatedFacts := by
    decide +kernel
  obtain ⟨rows, hrows, -, -, hdistinct⟩ := read_requests hselect hread
  have hmem : ∀ name, name ∈ ["prime", "label"] ↔ name ∈ ["prime", "label", "prime"] := by
    intro name
    simp only [List.mem_cons, List.not_mem_nil, or_false]
    tauto
  obtain ⟨once, fs, honce, hfs, -, heq⟩ := hdistinct ["prime", "label"] (by decide) hmem
  refine ⟨hselect, hread, once, fs, honce, hfs, fun h => ?_⟩
  -- The primes are asked for twice, and their file has rows.
  obtain ⟨r, hr, htuples⟩ := hrows "prime" List.mem_cons_self
  have hprimes : numberInterface.relation? "prime" = some primes := by decide +kernel
  have hfile : fileTuples Registry.empty numberFiles primes = .ok [[.number 2], [.number 7]] := by
    decide +kernel
  cases hprimes.symm.trans hr
  rcases heq.mp h "prime" List.mem_cons_self with hcount | hempty
  · exact absurd hcount (by decide)
  · rw [hempty, hfile] at htuples
    cases htuples

/-- The same relation under two requests holds the rows of its file twice. -/
theorem read_same_twice :
    numberInterface.select ["prime", "prime"] = .ok [primes, primes] ∧
      fileTuples Registry.empty numberFiles primes = .ok [[.number 2], [.number 7]] ∧
      (read Registry.empty numberFiles [primes, primes]).bind (·.facts "prime") =
        .ok [[.number 2], [.number 7], [.number 2], [.number 7]] ∧
      (read Registry.empty numberFiles [primes]).bind (·.facts "prime") =
        .ok [[.number 2], [.number 7]] :=
  ⟨by decide +kernel, by decide +kernel, by decide +kernel, by decide +kernel⟩

end FactSet

end TreeFacts
