import TreeFacts.Entries
import TreeFacts.Proofs.Result
import TreeFacts.Tree.Index

namespace TreeFacts

namespace NodeIndex

theorem insert_eq_ok {ix : NodeIndex} {n : Node} (h : n.id ∉ ix.entries.map (·.1)) :
    ix.insert n = .ok ⟨(n.id, n) :: ix.entries⟩ := by
  have hnone : ix.get? n.id = none := Entries.lookup_eq_none_iff.mpr h
  rw [insert, hnone]

theorem foldlM_insert {visits : List Visit} {ix : NodeIndex}
    (hn : (visits.map (·.2.id)).Nodup) (hfresh : ∀ v ∈ visits, v.2.id ∉ ix.entries.map (·.1)) :
    visits.foldlM (fun ix visit => ix.insert visit.2) ix =
      .ok ⟨(visits.map fun v => (v.2.id, v.2)).reverse ++ ix.entries⟩ := by
  induction visits generalizing ix with
  | nil => rfl
  | cons v rest ih =>
    obtain ⟨hv, hrest⟩ := List.nodup_cons.mp hn
    have hother : ∀ w ∈ rest, w.2.id ∉ ((v.2.id, v.2) :: ix.entries).map (·.1) := by
      intro w hw hmem
      rcases List.mem_cons.mp hmem with heq | hmem
      · exact hv (List.mem_map.mpr ⟨w, hw, heq⟩)
      · exact hfresh w (List.mem_cons_of_mem _ hw) hmem
    rw [List.foldlM_cons, insert_eq_ok (hfresh v List.mem_cons_self), ok_bind, ih hrest hother]
    simp

/-- A forest with distinct identifiers is indexed, each node under its own. -/
theorem ofRoots_eq_ok {roots : List Node} (hn : ((walkAll roots).map (·.2.id)).Nodup) :
    ∃ ix, ofRoots roots = .ok ix ∧
      ∀ id n, ix.get? id = some n ↔ n.id = id ∧ ∃ v ∈ walkAll roots, v.2 = n := by
  have hfold := @foldlM_insert (walkAll roots) ⟨[]⟩ hn (by simp)
  refine ⟨_, hfold, ?_⟩
  intro id n
  have hkeys : (((walkAll roots).map fun v => (v.2.id, v.2)).reverse.map (·.1)).Nodup := by
    rw [List.map_reverse, (List.reverse_perm _).nodup_iff, List.map_map]
    exact hn
  have hmem : (id, n) ∈ ((walkAll roots).map fun v => (v.2.id, v.2)).reverse ↔
      n.id = id ∧ ∃ v ∈ walkAll roots, v.2 = n := by
    rw [List.mem_reverse, List.mem_map]
    constructor
    · rintro ⟨v, hv, heq⟩
      cases heq
      exact ⟨rfl, v, hv, rfl⟩
    · rintro ⟨rfl, v, hv, rfl⟩
      exact ⟨v, hv, rfl⟩
  rw [get?, List.append_nil, ← hmem]
  exact ⟨Entries.mem_of_lookup, Entries.lookup_of_mem hkeys⟩

end NodeIndex

end TreeFacts
