import TreeFacts.Proofs.Json.Order
import TreeFacts.Proofs.Tree.Loading

namespace TreeFacts

open Json

variable {members : List (String × Json)} {pairs : List (String × Value)} {n : Node}

theorem keys_of_read (h : Value.ofMembers members = asRead pairs) :
    pairs.map (·.1) = members.map (·.1) := by
  have hkeys := congrArg (List.map (·.1)) h
  rw [Value.ofMembers_eq_map, asRead, List.map_map, List.map_map] at hkeys
  exact hkeys.symm

theorem Node.keepsReserved_of_read (hn : (pairs.map (·.1)).Nodup)
    (h : nodeOfMembers? (asRead pairs) = some n) :
    Entries.Ascending n.fields ∧ KeepsReserved n.fields := by
  obtain ⟨-, -, -, hfields⟩ := (nodeOfMembers?_asRead hn).mp h
  rw [← hfields]
  refine ⟨Entries.ascending_ofList _, ?_⟩
  intro key hkey hmem
  obtain ⟨p, hp, rfl⟩ := List.mem_map.mp hmem
  have hfree := (List.mem_filter.mp (Entries.mem_ofList hp)).2
  simp [hkey] at hfree

theorem Value.holdsInEntries_iff {p q : Entries Value → Prop} {es : List (String × Value)} :
    Value.HoldsInEntries p q es ↔ ∀ e ∈ es, e.2.Holds p q := by
  induction es with
  | nil => simp [Value.HoldsInEntries]
  | cons e es ih =>
    obtain ⟨key, v⟩ := e
    rw [Value.HoldsInEntries, ih, List.forall_mem_cons]

theorem Value.holdsInList_iff {p q : Entries Value → Prop} {items : List Value} :
    Value.HoldsInList p q items ↔ ∀ v ∈ items, v.Holds p q := by
  induction items with
  | nil => simp [Value.HoldsInList]
  | cons v items ih => rw [Value.HoldsInList, ih, List.forall_mem_cons]

/-- What an object without repeated keys is read as satisfies `p` as the fields of a node and `q` as
the entries of a map. -/
structure KeptByReading (p q : Entries Value → Prop) : Prop where
  fields : ∀ (pairs : List (String × Value)) (n : Node), (pairs.map (·.1)).Nodup →
    nodeOfMembers? (asRead pairs) = some n → p n.fields
  entries : ∀ pairs : List (String × Value), (pairs.map (·.1)).Nodup →
    nodeOfMembers? (asRead pairs) = none → q (Entries.ofList pairs)

variable {p q : Entries Value → Prop}

mutual

theorem Value.holds_of_read (kept : KeptByReading p q) : ∀ (j : Json) {v : Value},
    j.NoRepeats → Value.ofJson? j = some v → v.Holds p q
  | .null, _, _, h | .bool _, _, _, h | .str _, _, _, h => by
    cases h
    trivial
  | .int m, _, _, h => by
    obtain ⟨n, -, rfl⟩ := Option.map_eq_some_iff.mp h
    trivial
  | .real, _, _, h => by cases h
  | .arr items, _, hj, h => by
    obtain ⟨vs, hvs, rfl⟩ := Option.map_eq_some_iff.mp h
    exact Value.holdsInList_of_read kept items hj hvs
  | .obj members, v, hj, h => by
    obtain ⟨pairs, hread, hv⟩ := Value.ofJson?_obj_eq_some h
    have hn := keys_of_read hread ▸ hj.1
    have hpairs := Value.holds_of_members kept members hj.2 hread
    rcases hv with ⟨n, hnode, rfl⟩ | ⟨hnode, rfl⟩
    · obtain ⟨-, -, -, hfields⟩ := (nodeOfMembers?_asRead hn).mp hnode
      have hentries : Value.HoldsInEntries p q n.fields := by
        rw [← hfields]
        exact Value.holdsInEntries_iff.mpr fun e he =>
          hpairs e (List.mem_filter.mp (Entries.mem_ofList he)).1
      have hp := kept.fields pairs n hn hnode
      obtain ⟨id, src, kind, fields⟩ := n
      exact ⟨hp, hentries⟩
    · exact ⟨kept.entries pairs hn hnode,
        Value.holdsInEntries_iff.mpr fun e he => hpairs e (Entries.mem_ofList he)⟩

theorem Value.holdsInList_of_read (kept : KeptByReading p q) : ∀ (items : List Json)
    {vs : List Value}, NoRepeatsInItems items → Value.ofItems? items = some vs →
    Value.HoldsInList p q vs
  | [], _, _, h => by
    cases h
    trivial
  | item :: items, _, hj, h => by
    obtain ⟨v, hv, h⟩ := Option.bind_eq_some_iff.mp h
    obtain ⟨vs, hvs, h⟩ := Option.bind_eq_some_iff.mp h
    cases h
    exact ⟨Value.holds_of_read kept item hj.1 hv, Value.holdsInList_of_read kept items hj.2 hvs⟩

theorem Value.holds_of_members (kept : KeptByReading p q) : ∀ (members : List (String × Json))
    {pairs : List (String × Value)}, NoRepeatsInMembers members →
    Value.ofMembers members = asRead pairs → ∀ e ∈ pairs, e.2.Holds p q
  | [], [], _, _ => List.forall_mem_nil _
  | [], _ :: _, _, h => by cases h
  | _ :: _, [], _, h => by cases h
  | (_, j) :: members, (_, v) :: pairs, hj, h => by
    obtain ⟨hfirst, hrest⟩ := List.cons.inj h
    have hv := (Prod.mk.inj hfirst).2
    exact List.forall_mem_cons.mpr
      ⟨Value.holds_of_read kept j hj.1 hv, Value.holds_of_members kept members hj.2 hrest⟩

end

theorem ascending_keptByReading : KeptByReading Entries.Ascending Entries.Ascending where
  fields := fun _ _ hn h => (Node.keepsReserved_of_read hn h).1
  entries := fun pairs _ _ => Entries.ascending_ofList pairs

theorem unmistakable_keptByReading :
    KeptByReading KeepsReserved fun entries => ¬LooksLikeNode entries where
  fields := fun _ _ hn h => (Node.keepsReserved_of_read hn h).2
  entries := by
    intro pairs hn hnone hlike
    simp only [LooksLikeNode, Entries.lookup_ofList hn] at hlike
    exact (nodeOfMembers?_eq_none_iff hn).mp hnone hlike

theorem Node.holds_of_read {j : Json} (kept : KeptByReading p q) (hj : j.NoRepeats)
    (h : Node.ofJson? j = some n) : n.Holds p q :=
  Value.holds_of_read kept j hj (Value.ofJson?_of_node h)

theorem Node.ordered_of_read {j : Json} (hj : j.NoRepeats) (h : Node.ofJson? j = some n) :
    n.Ordered :=
  Node.holds_of_read ascending_keptByReading hj h

theorem Node.unmistakable_of_read {j : Json} (hj : j.NoRepeats) (h : Node.ofJson? j = some n) :
    n.Unmistakable :=
  Node.holds_of_read unmistakable_keptByReading hj h

end TreeFacts
