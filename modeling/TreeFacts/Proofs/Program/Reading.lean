import TreeFacts.Proofs.Program.Scan

namespace TreeFacts.Program

open Piece

variable {ps : List Piece}

theorem mergeSort_eq_of_perm {α : Type} {found entries : List (Nat × α)}
    (hperm : found.Perm entries) (hsorted : entries.Pairwise fun a b => a.1 < b.1) :
    (found.mergeSort fun a b => a.1 ≤ b.1) = entries := by
  have hsame := List.mergeSort_perm found fun a b => a.1 ≤ b.1
  have hfound : (found.mergeSort fun a b => a.1 ≤ b.1).Pairwise fun a b => a.1 ≤ b.1 := by
    simpa using @List.pairwise_mergeSort (Nat × α) (fun a b => decide (a.1 ≤ b.1))
      (fun a b c hab hbc => by simp at hab hbc ⊢; omega) (fun a b => by simp; omega) found
  have hkeys : (entries.map (·.1)).Nodup :=
    (List.pairwise_map.mpr hsorted).imp fun hlt => Nat.ne_of_lt hlt
  refine List.Perm.eq_of_pairwise ?_ hfound (hsorted.imp fun hlt => Nat.le_of_lt hlt)
    (hsame.trans hperm)
  -- No two entries are at one position.
  intro a b ha hb hab hba
  have ha' : a ∈ entries := (hsame.trans hperm).mem_iff.mp ha
  exact List.inj_on_of_nodup_map hkeys ha' hb (Nat.le_antisymm hab hba)

theorem mem_starts {n : Nat} {entry : Nat × Piece} (h : entry ∈ starts n ps) :
    n ≤ entry.1 ∧ entry.2 ∈ ps := by
  induction ps generalizing n with
  | nil => simp [starts] at h
  | cons p ps ih =>
    rcases List.mem_cons.mp h with rfl | h
    · exact ⟨Nat.le_refl n, List.mem_cons_self⟩
    · obtain ⟨hle, hmem⟩ := ih h
      exact ⟨by omega, List.mem_cons_of_mem p hmem⟩

theorem starts_pairwise (hps : ∀ p ∈ ps, p.Plain) (n : Nat) :
    (starts n ps).Pairwise fun a b => a.1 < b.1 := by
  induction ps generalizing n with
  | nil => exact .nil
  | cons p ps ih =>
    obtain ⟨hp, hmore⟩ := List.forall_mem_cons.mp hps
    obtain ⟨c, cs, htext, -⟩ := exists_cons_text hp
    refine List.pairwise_cons.mpr ⟨fun entry hentry => ?_, ih hmore _⟩
    have hle := (mem_starts hentry).1
    rw [htext, List.length_cons] at hle
    simp only
    omega

theorem filterMap_starts {α : Type} (read : Piece → Option α) (n : Nat) :
    ((starts n ps).filterMap fun entry => read entry.2) = ps.filterMap read := by
  induction ps generalizing n with
  | nil => rfl
  | cons p ps ih => rw [starts, List.filterMap_cons, List.filterMap_cons, ih]

theorem map_located? {α β : Type} (read : β → Option α) (entries : List (Nat × β)) :
    (entries.filterMap (located? read)).map (·.2) = entries.filterMap fun entry => read entry.2 := by
  rw [List.map_filterMap]
  refine List.filterMap_congr fun entry _ => ?_
  rw [located?, Option.map_map]
  exact Option.map_id'

/-- The types that pieces declare, with their positions. -/
def typeEntries (ps : List Piece) : List (Nat × TypeDef) :=
  (starts 0 ps).filterMap (located? type?)

theorem map_typeEntries (ps : List Piece) : (typeEntries ps).map (·.2) = ps.filterMap type? := by
  rw [typeEntries, map_located?, filterMap_starts]

theorem typeEntries_plain (hps : ∀ p ∈ ps, p.Plain) {entry : Nat × TypeDef}
    (h : entry ∈ typeEntries ps) : entry.2.Plain := by
  have hmem : entry.2 ∈ ps.filterMap type? := by
    rw [← map_typeEntries]
    exact List.mem_map_of_mem h
  obtain ⟨p, hp, htype⟩ := List.mem_filterMap.mp hmem
  cases p with
  | type d =>
    cases htype
    exact hps _ hp
  | filler | stop | declaration => cases htype

theorem typeEntries_pairwise (hps : ∀ p ∈ ps, p.Plain) :
    (typeEntries ps).Pairwise fun a b => a.1 < b.1 := by
  have hposition {entry : Nat × Piece} {found : Nat × TypeDef}
      (h : located? type? entry = some found) : found.1 = entry.1 := by
    obtain ⟨d, -, rfl⟩ := Option.map_eq_some_iff.mp h
    rfl
  refine (starts_pairwise hps 0).filterMap _ fun a b hlt a' ha b' hb => ?_
  rw [hposition ha, hposition hb]
  exact hlt

theorem findAll_type {α : Type} {recognise : Recogniser α} {read : TypeDef → Option α}
    (hs : Scans recognise fun p => p.type?.bind read) (hps : ∀ p ∈ ps, p.Plain) :
    findAll recognise (ps.flatMap text) = (typeEntries ps).filterMap (located? read) := by
  rw [findAll, hs.findAllFrom_eq hps, typeEntries, List.filterMap_filterMap]
  refine List.filterMap_congr fun entry _ => ?_
  obtain ⟨n, p⟩ := entry
  cases p with
  | type d => rfl
  | filler | stop | declaration => rfl

def recordType? : TypeDef → Option TypeDef
  | .record name fields => some (.record name fields)
  | _ => none

def unionType? : TypeDef → Option TypeDef
  | .union name branches => some (.union name branches)
  | _ => none

/-- A type is of one form alone. -/
theorem forms_perm (entries : List (Nat × TypeDef)) :
    (entries.filterMap (located? subtypeOf?) ++ entries.filterMap (located? recordType?) ++
      entries.filterMap (located? unionType?)).Perm entries := by
  induction entries with
  | nil => exact .refl _
  | cons entry entries ih =>
    obtain ⟨n, d⟩ := entry
    cases d with
    | subtype name base => exact ih.cons _
    | record name fields =>
      simp only [List.filterMap_cons, located?, subtypeOf?, recordType?, unionType?, Option.map_some,
        Option.map_none, List.append_assoc, List.cons_append] at ih ⊢
      exact List.perm_middle.trans (ih.cons _)
    | union name branches =>
      simp only [List.filterMap_cons, located?, subtypeOf?, recordType?, unionType?, Option.map_some,
        Option.map_none] at ih ⊢
      exact List.perm_middle.trans (ih.cons _)

theorem atPositions_located? {α β γ : Type} {read : α → Except ParseFault β} {f : γ → Option α}
    {f' : γ → Option β} {entries : List (Nat × γ)}
    (h : ∀ entry ∈ entries, (f entry.2).map read = (f' entry.2).map .ok) :
    atPositions read (entries.filterMap (located? f)) =
      .ok (entries.filterMap (located? f')) := by
  refine mapM_filterMap fun entry hentry => ?_
  have hread := h entry hentry
  rw [located?, located?]
  cases hf : f entry.2 with
  | none =>
    cases hf' : f' entry.2 with
    | none => rfl
    | some b => simp [hf, hf'] at hread
  | some a =>
    cases hf' : f' entry.2 with
    | none => simp [hf, hf'] at hread
    | some b =>
      have hb : read a = .ok b := by simpa [hf, hf'] using hread
      simp [hb]

theorem recordOf?_read {d : TypeDef} (h : d.Plain) :
    (recordOf? d).map recordType = (recordType? d).map .ok := by
  cases d with
  | record name fields => simp [recordOf?, recordType?, recordType, fieldTypes_render h.2]
  | subtype | union => rfl

theorem unionOf?_read {d : TypeDef} (h : d.Plain) :
    (unionOf? d).map unionType = (unionType? d).map .ok := by
  cases d with
  | union name branches =>
    have hbranches : (branches.map fun b => (b.name, (FieldTypes.render b.fields).toList)).mapM
        unionBranch = .ok branches := by
      rw [mapM_eq_ok, List.forall₂_map_left_iff, List.forall₂_same]
      intro b hb
      simp [unionBranch, fieldTypes_render (h.2.2 b hb).2]
    simp [unionOf?, unionType?, unionType, hbranches]
  | subtype | record => rfl

/-- The statements that pieces are read as. -/
theorem read_pieces (hps : ∀ p ∈ ps, p.Plain) :
    Statements.read (ps.flatMap text) =
      .ok ⟨ps.filterMap type?, ps.filterMap Piece.declaration?, [], []⟩ := by
  have hrecords : atPositions recordType (findAll record? (ps.flatMap text)) =
      .ok ((typeEntries ps).filterMap (located? recordType?)) := by
    rw [findAll_type record?_scans hps]
    exact atPositions_located? fun entry hentry => recordOf?_read (typeEntries_plain hps hentry)
  have hunions : atPositions unionType (findAll union? (ps.flatMap text)) =
      .ok ((typeEntries ps).filterMap (located? unionType?)) := by
    rw [findAll_type union?_scans hps]
    exact atPositions_located? fun entry hentry => unionOf?_read (typeEntries_plain hps hentry)
  have hsorted := mergeSort_eq_of_perm (forms_perm (typeEntries ps)) (typeEntries_pairwise hps)
  have hrelations : ((findAll Program.declaration? (ps.flatMap text)).mapM fun p => relation p.2) =
      .ok (ps.filterMap Piece.declaration?) := by
    rw [findAll, declaration?_scans.findAllFrom_eq hps, ← filterMap_starts _ 0]
    refine mapM_filterMap fun entry hentry => ?_
    have hplain := hps entry.2 (mem_starts hentry).2
    obtain ⟨n, p⟩ := entry
    cases p with
    | declaration r =>
      simp [located?, Piece.declaration?, relation, fieldTypes_render hplain.2]
    | filler | stop | type => rfl
  have houtputs : findAll outputs? (ps.flatMap text) = [] := by
    rw [findAll, outputs?_scans.findAllFrom_eq hps]
    exact List.filterMap_eq_nil_iff.mpr fun _ _ => rfl
  have hinits : findAll init? (ps.flatMap text) = [] := by
    rw [findAll, init?_scans.findAllFrom_eq hps]
    exact List.filterMap_eq_nil_iff.mpr fun _ _ => rfl
  unfold Statements.read
  rw [hrecords, ok_bind, hunions, ok_bind, findAll_type subtype?_scans hps]
  simp only [hsorted, hrelations, houtputs, hinits, map_typeEntries]
  rfl

end TreeFacts.Program
