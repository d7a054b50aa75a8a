import TreeFacts.Proofs.Program.Scan
import TreeFacts.Proofs.Result

namespace TreeFacts.Program

variable {α β : Type} {f : Nat → Nat} {cs cs' : List Char} {letter : Char}
  {recognise : Recogniser α}

/-- What was found, at other positions. -/
def relocate (f : Nat → Nat) (found : List (Nat × α)) : List (Nat × α) :=
  found.map fun p => (f p.1, p.2)

/-- The positions of the types in a text. -/
def typePositions (cs : List Char) : List Nat :=
  (findAll subtype? cs).map (·.1) ++ (findAll record? cs).map (·.1) ++ (findAll union? cs).map (·.1)

/-- The same statements stand in two texts, the types in the same order. -/
structure Relocated (f : Nat → Nat) (cs cs' : List Char) : Prop where
  subtype : findAll subtype? cs' = relocate f (findAll subtype? cs)
  record : findAll record? cs' = relocate f (findAll record? cs)
  union : findAll union? cs' = relocate f (findAll union? cs)
  declaration : findAll declaration? cs' = relocate f (findAll declaration? cs)
  outputs : findAll outputs? cs' = relocate f (findAll outputs? cs)
  init : findAll init? cs' = relocate f (findAll init? cs)
  order : ∀ i ∈ typePositions cs, ∀ j ∈ typePositions cs, f i ≤ f j ↔ i ≤ j

theorem map_relocate (found : List (Nat × α)) :
    (relocate f found).map (·.2) = found.map (·.2) := by
  rw [relocate, List.map_map]
  rfl

theorem atPositions_relocate (read : α → Except ParseFault β) (found : List (Nat × α)) :
    atPositions read (relocate f found) = (atPositions read found).map (relocate f) := by
  unfold atPositions relocate
  rw [List.mapM_map]
  induction found with
  | nil => rfl
  | cons p found ih =>
    rw [List.mapM_cons, List.mapM_cons, ih]
    simp only [Function.comp_apply]
    cases read p.2 with
    | error fault => rfl
    | ok b =>
      cases found.mapM fun p : Nat × α => (read p.2).map (p.1, ·) <;> rfl

theorem map_atPositions {read : α → Except ParseFault β} {found : List (Nat × α)}
    {entries : List (Nat × β)} (h : atPositions read found = .ok entries) :
    entries.map (·.1) = found.map (·.1) := by
  have hall := mapM_eq_ok.mp h
  clear h
  induction hall with
  | nil => rfl
  | cons hread _ ih =>
    obtain ⟨b, -, rfl⟩ := map_eq_ok.mp hread
    rw [List.map_cons, List.map_cons, ih]

theorem mergeSort_relocate {entries : List (Nat × α)}
    (h : ∀ i ∈ entries.map (·.1), ∀ j ∈ entries.map (·.1), f i ≤ f j ↔ i ≤ j) :
    ((relocate f entries).mergeSort fun a b => a.1 ≤ b.1) =
      relocate f (entries.mergeSort fun a b => a.1 ≤ b.1) := by
  refine (List.map_mergeSort fun a ha b hb => ?_).symm
  exact decide_eq_decide.mpr (h _ (List.mem_map_of_mem ha) _ (List.mem_map_of_mem hb)).symm

/-- Positions matter to what is read only in the order of the types. -/
theorem Relocated.read_eq (h : Relocated f cs cs') : Statements.read cs' = Statements.read cs := by
  have hflat (found : List (Nat × List String)) :
      (relocate f found).flatMap (·.2) = found.flatMap (·.2) := by
    rw [List.flatMap_def, List.flatMap_def, map_relocate]
  have hrelations (found : List (Nat × String × List Char)) :
      ((relocate f found).mapM fun p => relation p.2) = found.mapM fun p => relation p.2 :=
    List.mapM_map
  unfold Statements.read
  rw [h.subtype, h.record, h.union, h.declaration, h.outputs, h.init, atPositions_relocate,
    atPositions_relocate, hflat, hrelations]
  cases hrecords : atPositions recordType (findAll record? cs) with
  | error fault => rfl
  | ok records =>
    cases hunions : atPositions unionType (findAll union? cs) with
    | error fault => rfl
    | ok unions =>
      have hpositions :
          (findAll subtype? cs ++ records ++ unions).map (·.1) = typePositions cs := by
        rw [List.map_append, List.map_append, map_atPositions hrecords, map_atPositions hunions]
        rfl
      have hsorted := mergeSort_relocate (hpositions ▸ h.order)
      have happend : relocate f (findAll subtype? cs ++ records ++ unions) =
          relocate f (findAll subtype? cs) ++ relocate f records ++ relocate f unions := by
        simp only [relocate, List.map_append]
      rw [happend] at hsorted
      simp only [map_ok, ok_bind, hsorted, map_relocate]

theorem findAllFrom_add (n k : Nat) (cs : List Char) :
    findAllFrom recognise (n + k) cs = relocate (· + k) (findAllFrom recognise n cs) := by
  fun_induction findAllFrom recognise n cs with
  | case1 n => simp [findAllFrom, relocate]
  | case2 n c cs found rest hfound hshorter ih =>
    rw [findAllFrom, hfound]
    simp only
    rw [if_pos hshorter, Nat.add_right_comm, ih]
    rfl
  | case3 n c cs found rest hfound hshorter ih =>
    rw [findAllFrom, hfound]
    simp only
    rw [if_neg hshorter, Nat.add_right_comm, ih]
  | case4 n c cs hnone ih =>
    rw [findAllFrom, hnone]
    simp only
    rw [Nat.add_right_comm, ih]

/-- A line break in front of a text is not read. -/
theorem read_break (cs : List Char) : Statements.read ('\n' :: cs) = Statements.read cs := by
  have hfound {α : Type} {letter : Char} {recognise : Recogniser α} (h : LedBy letter recognise) :
      findAll recognise ('\n' :: cs) = relocate (· + 1) (findAll recognise cs) := by
    have hinner : Inner ['\n'] := by simp
    rw [findAll, findAll, ← findAllFrom_add]
    exact findAllFrom_append h hinner 0 cs
  refine Relocated.read_eq ⟨hfound subtype?_ledBy, hfound record?_ledBy, hfound union?_ledBy,
    hfound declaration?_ledBy, hfound outputs?_ledBy, hfound init?_ledBy, fun i _ j _ => ?_⟩
  omega

end TreeFacts.Program
