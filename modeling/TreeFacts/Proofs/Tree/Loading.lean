import TreeFacts.Entries
import TreeFacts.Proofs.Numeral
import TreeFacts.Tree.Loading

namespace TreeFacts

/-- Members whose values could all be read. -/
def asRead (pairs : List (String × Value)) : List (String × Option Value) :=
  pairs.map fun p => (p.1, some p.2)

theorem exists_asRead {members : List (String × Option Value)}
    (h : ∀ m ∈ members, ∃ v, m.2 = some v) : ∃ pairs, members = asRead pairs := by
  induction members with
  | nil => exact ⟨[], rfl⟩
  | cons m members ih =>
    obtain ⟨key, read⟩ := m
    obtain ⟨v, hv⟩ := h (key, read) List.mem_cons_self
    obtain ⟨pairs, rfl⟩ := ih fun m hm => h m (List.mem_cons_of_mem _ hm)
    have hread : read = some v := hv
    exact ⟨(key, v) :: pairs, by rw [hread]; rfl⟩

theorem mapM_asRead (pairs : List (String × Value)) :
    (asRead pairs).mapM (fun m => m.2.map (m.1, ·)) = some pairs := by
  induction pairs with
  | nil => rfl
  | cons p pairs ih =>
    have hcons : asRead (p :: pairs) = (p.1, some p.2) :: asRead pairs := rfl
    rw [hcons, List.mapM_cons, ih]
    rfl

theorem allRead?_asRead (pairs : List (String × Value)) :
    allRead? (asRead pairs) = some (Entries.ofList pairs) := by
  rw [allRead?, mapM_asRead, Option.map_some]

theorem asRead_of_mapM : ∀ {members : List (String × Option Value)} {pairs : List (String × Value)},
    members.mapM (fun m => m.2.map (m.1, ·)) = some pairs → members = asRead pairs
  | [], pairs, h => by
    cases h
    rfl
  | (key, read) :: members, pairs, h => by
    rw [List.mapM_cons] at h
    obtain ⟨p, hp, h⟩ := Option.bind_eq_some_iff.mp h
    obtain ⟨rest, hrest, h⟩ := Option.bind_eq_some_iff.mp h
    obtain ⟨v, hv, rfl⟩ := Option.map_eq_some_iff.mp hp
    cases h
    have hread : read = some v := hv
    rw [asRead_of_mapM hrest, hread]
    rfl

theorem allRead?_eq_some {members : List (String × Option Value)} {es : Entries Value} :
    allRead? members = some es ↔ ∃ pairs, members = asRead pairs ∧ es = Entries.ofList pairs := by
  constructor
  · intro h
    obtain ⟨pairs, hpairs, rfl⟩ := Option.map_eq_some_iff.mp h
    exact ⟨pairs, asRead_of_mapM hpairs, rfl⟩
  · rintro ⟨pairs, rfl, rfl⟩
    exact allRead?_asRead pairs

/-- The values read under a key. -/
def readUnder (members : List (String × Option Value)) (key : String) : List (Option Value) :=
  (members.filter (·.1 == key)).map (·.2)

theorem nodeOfMembers?_eq_some {members : List (String × Option Value)} {n : Node} :
    nodeOfMembers? members = some n ↔
      readUnder members "id" = [some (.int n.id)] ∧
      readUnder members "nodeType" = [some (.text n.kind)] ∧
      (readUnder members "src" = [] ∧ n.src = "" ∨
        readUnder members "src" = [some (.text n.src)]) ∧
      allRead? (members.filter fun m => !reservedKeys.contains m.1) = some n.fields := by
  obtain ⟨id, src, kind, fields⟩ := n
  constructor
  · intro h
    unfold nodeOfMembers? at h
    dsimp only at h
    split at h
    next hid =>
      split at h
      next hkind =>
        split at h
        next hsrc =>
          rw [Option.bind_eq_bind, Option.bind_some] at h
          obtain ⟨fields', hfields, h⟩ := Option.bind_eq_some_iff.mp h
          cases h
          exact ⟨hid, hkind, .inl ⟨hsrc, rfl⟩, hfields⟩
        next hsrc =>
          rw [Option.bind_eq_bind, Option.bind_some] at h
          obtain ⟨fields', hfields, h⟩ := Option.bind_eq_some_iff.mp h
          cases h
          exact ⟨hid, hkind, .inr hsrc, hfields⟩
        next => cases h
      next => cases h
    next => cases h
  · rintro ⟨hid, hkind, hsrc, hfields⟩
    unfold readUnder at hid hkind hsrc
    simp only [nodeOfMembers?, hid, hkind, hfields]
    rcases hsrc with ⟨hnone, rfl⟩ | hone
    · rw [hnone]
      rfl
    · rw [hone]
      rfl

theorem readUnder_cons_self (key : String) (read : Option Value)
    (members : List (String × Option Value)) :
    readUnder ((key, read) :: members) key = read :: readUnder members key := by
  simp [readUnder]

theorem readUnder_cons_of_ne {key other : String} (h : other ≠ key) (read : Option Value)
    (members : List (String × Option Value)) :
    readUnder ((other, read) :: members) key = readUnder members key := by
  simp [readUnder, h]

theorem readUnder_asRead {pairs : List (String × Value)} (hn : (pairs.map (·.1)).Nodup)
    (key : String) : readUnder (asRead pairs) key = ((pairs.lookup key).map some).toList := by
  induction pairs with
  | nil => rfl
  | cons p pairs ih =>
    obtain ⟨other, v⟩ := p
    obtain ⟨hfresh, hrest⟩ := List.nodup_cons.mp hn
    have hcons : asRead ((other, v) :: pairs) = (other, some v) :: asRead pairs := rfl
    by_cases hkey : other = key
    · subst hkey
      rw [hcons, readUnder_cons_self, ih hrest, Entries.lookup_eq_none_iff.mpr hfresh,
        List.lookup_cons_self]
      rfl
    · rw [hcons, readUnder_cons_of_ne hkey, ih hrest, Entries.lookup_cons_of_ne (Ne.symm hkey)]

theorem filter_asRead (pairs : List (String × Value)) :
    (asRead pairs).filter (fun m => !reservedKeys.contains m.1) =
      asRead (pairs.filter fun p => !reservedKeys.contains p.1) := by
  rw [asRead, List.filter_map]
  rfl

theorem toList_map_some_eq {o : Option Value} {v : Value} :
    (o.map some).toList = [some v] ↔ o = some v := by
  cases o <;> simp

theorem toList_map_some_eq_nil {o : Option Value} : (o.map some).toList = [] ↔ o = none := by
  cases o <;> simp

/-- What makes members without repeated keys a node, by what stands under each key. -/
theorem nodeOfMembers?_asRead {pairs : List (String × Value)} (hn : (pairs.map (·.1)).Nodup)
    {n : Node} :
    nodeOfMembers? (asRead pairs) = some n ↔
      pairs.lookup "id" = some (.int n.id) ∧ pairs.lookup "nodeType" = some (.text n.kind) ∧
      (pairs.lookup "src" = none ∧ n.src = "" ∨ pairs.lookup "src" = some (.text n.src)) ∧
      Entries.ofList (pairs.filter fun p => !reservedKeys.contains p.1) = n.fields := by
  simp only [nodeOfMembers?_eq_some, readUnder_asRead hn, toList_map_some_eq,
    toList_map_some_eq_nil, filter_asRead, allRead?_asRead, Option.some.injEq]

theorem mem_readUnder {members : List (String × Option Value)} {key : String}
    {read : Option Value} (h : (key, read) ∈ members) : read ∈ readUnder members key :=
  List.mem_map.mpr ⟨_, List.mem_filter.mpr ⟨h, beq_self_eq_true key⟩, rfl⟩

/-- Every member of a node could be read. -/
theorem asRead_of_node {members : List (String × Option Value)} {n : Node}
    (h : nodeOfMembers? members = some n) : ∃ pairs, members = asRead pairs := by
  obtain ⟨hid, hkind, hsrc, hfields⟩ := nodeOfMembers?_eq_some.mp h
  refine exists_asRead ?_
  rintro ⟨key, read⟩ hmem
  have hunder := mem_readUnder hmem
  by_cases hkey : key ∈ reservedKeys
  · have hcases : key = "id" ∨ key = "src" ∨ key = "nodeType" := by simpa [reservedKeys] using hkey
    rcases hcases with rfl | rfl | rfl
    · rw [hid] at hunder
      exact ⟨_, List.mem_singleton.mp hunder⟩
    · rcases hsrc with ⟨hnone, -⟩ | hone
      · rw [hnone] at hunder
        exact absurd hunder List.not_mem_nil
      · rw [hone] at hunder
        exact ⟨_, List.mem_singleton.mp hunder⟩
    · rw [hkind] at hunder
      exact ⟨_, List.mem_singleton.mp hunder⟩
  · obtain ⟨pairs, hpairs, -⟩ := allRead?_eq_some.mp hfields
    have hfield : (key, read) ∈ members.filter fun m => !reservedKeys.contains m.1 :=
      List.mem_filter.mpr ⟨hmem, by simpa using hkey⟩
    rw [hpairs] at hfield
    obtain ⟨p, -, heq⟩ := List.mem_map.mp hfield
    cases heq
    exact ⟨_, rfl⟩

namespace Value

/-- An object is read as a node if it can be, and else as a map of all its members. -/
theorem ofJson?_obj_eq_some {members : List (String × Json)} {v : Value}
    (h : ofJson? (.obj members) = some v) :
    ∃ pairs, ofMembers members = asRead pairs ∧
      ((∃ n, nodeOfMembers? (asRead pairs) = some n ∧ v = .node n) ∨
        nodeOfMembers? (asRead pairs) = none ∧ v = .map (Entries.ofList pairs)) := by
  rw [ofJson?] at h
  split at h
  next n hnode =>
    cases h
    obtain ⟨pairs, hread⟩ := asRead_of_node hnode
    exact ⟨pairs, hread, .inl ⟨n, hread ▸ hnode, rfl⟩⟩
  next hnode =>
    obtain ⟨es, hes, rfl⟩ := Option.map_eq_some_iff.mp h
    obtain ⟨pairs, hread, rfl⟩ := allRead?_eq_some.mp hes
    exact ⟨pairs, hread, .inr ⟨hread ▸ hnode, rfl⟩⟩

theorem entriesToJson_eq_map (es : List (String × Value)) :
    entriesToJson es = es.map fun e => (e.1, e.2.toJson) := by
  induction es with
  | nil => rfl
  | cons e es ih => rw [entriesToJson, ih, List.map_cons]

theorem ofMembers_eq_map (members : List (String × Json)) :
    ofMembers members = members.map fun m => (m.1, ofJson? m.2) := by
  induction members with
  | nil => rfl
  | cons m members ih => rw [ofMembers, ih, List.map_cons]

end Value

mutual

/-- The fields of every node satisfy `p`, and the entries of every map `q`. -/
def Node.Holds (p q : Entries Value → Prop) : Node → Prop
  | .mk _ _ _ fields => p fields ∧ Value.HoldsInEntries p q fields

def Value.Holds (p q : Entries Value → Prop) : Value → Prop
  | .node n => n.Holds p q
  | .list items => Value.HoldsInList p q items
  | .map entries => q entries ∧ Value.HoldsInEntries p q entries
  | .null | .bool _ | .int _ | .text _ => True

def Value.HoldsInList (p q : Entries Value → Prop) : List Value → Prop
  | [] => True
  | v :: rest => v.Holds p q ∧ Value.HoldsInList p q rest

def Value.HoldsInEntries (p q : Entries Value → Prop) : List (String × Value) → Prop
  | [] => True
  | (_, v) :: rest => v.Holds p q ∧ Value.HoldsInEntries p q rest

end

/-- An integer stands under `id`, text under `nodeType`, and text or nothing under `src`. -/
def LooksLikeNode (es : Entries Value) : Prop :=
  (∃ id, es.lookup "id" = some (.int id)) ∧ (∃ kind, es.lookup "nodeType" = some (.text kind)) ∧
    (es.lookup "src" = none ∨ ∃ src, es.lookup "src" = some (.text src))

/-- Fields and maps keep their entries in key order. -/
def Node.Ordered (n : Node) : Prop := n.Holds Entries.Ascending Entries.Ascending

/-- No field has the key of what is not a field. -/
def KeepsReserved (fields : Entries Value) : Prop := ∀ key ∈ reservedKeys, key ∉ fields.map (·.1)

/-- No field is taken for what is not a field, and no map for a node. -/
def Node.Unmistakable (n : Node) : Prop :=
  n.Holds KeepsReserved fun entries => ¬LooksLikeNode entries

theorem nodeOfMembers?_eq_none_iff {pairs : List (String × Value)} (hn : (pairs.map (·.1)).Nodup) :
    nodeOfMembers? (asRead pairs) = none ↔ ¬LooksLikeNode pairs := by
  constructor
  · rintro hnone ⟨⟨id, hid⟩, ⟨kind, hkind⟩, hsrc⟩
    have hsource : ∃ src, pairs.lookup "src" = none ∧ src = "" ∨
        pairs.lookup "src" = some (.text src) := by
      rcases hsrc with hmissing | ⟨src, hsrc⟩
      · exact ⟨"", .inl ⟨hmissing, rfl⟩⟩
      · exact ⟨src, .inr hsrc⟩
    obtain ⟨src, hsource⟩ := hsource
    have hnode : nodeOfMembers? (asRead pairs) = some (.mk id src kind _) :=
      (nodeOfMembers?_asRead hn).mpr ⟨hid, hkind, hsource, rfl⟩
    rw [hnone] at hnode
    cases hnode
  · intro h
    refine Option.eq_none_iff_forall_ne_some.mpr fun n hnode => ?_
    obtain ⟨hid, hkind, hsrc, -⟩ := (nodeOfMembers?_asRead hn).mp hnode
    exact h ⟨⟨_, hid⟩, ⟨_, hkind⟩, hsrc.imp (·.1) fun h => ⟨_, h⟩⟩

/-- What a node is written as. -/
def Node.entries (n : Node) : List (String × Value) :=
  [("id", .int n.id), ("src", .text n.src), ("nodeType", .text n.kind)] ++ n.fields

theorem Node.toJson_eq (n : Node) : n.toJson = .obj (Value.entriesToJson n.entries) := by
  obtain ⟨id, src, kind, fields⟩ := n
  rfl

theorem Node.nodup_entries {n : Node} (ho : Entries.Ascending n.fields)
    (hk : KeepsReserved n.fields) : (n.entries.map (·.1)).Nodup := by
  have hkeys : n.entries.map (·.1) = reservedKeys ++ n.fields.map (·.1) := rfl
  rw [hkeys]
  refine List.nodup_append.mpr ⟨by decide, ho.nodup_keys, ?_⟩
  intro a ha b hb heq
  exact hk a ha (heq ▸ hb)

theorem Node.nodeOfMembers?_entries {n : Node} (ho : Entries.Ascending n.fields)
    (hk : KeepsReserved n.fields) : nodeOfMembers? (asRead n.entries) = some n := by
  refine (nodeOfMembers?_asRead (n.nodup_entries ho hk)).mpr ⟨rfl, rfl, .inr rfl, ?_⟩
  have hfields : n.fields.filter (fun p => !reservedKeys.contains p.1) = n.fields := by
    refine List.filter_eq_self.mpr ?_
    intro p hp
    have hkey : p.1 ∉ reservedKeys := fun h => hk p.1 h (List.mem_map.mpr ⟨p, hp, rfl⟩)
    simpa using hkey
  have hentries : n.entries.filter (fun p => !reservedKeys.contains p.1) =
      n.fields.filter fun p => !reservedKeys.contains p.1 := rfl
  rw [hentries, hfields, ho.ofList_eq]

theorem Value.ofJson?_int (n : Int64) : Value.ofJson? (.int n.toInt) = some (.int n) := by
  rw [Value.ofJson?, Text.int64?_toInt, Option.map_some]

theorem Node.ofJson?_of_fields {n : Node} (ho : Entries.Ascending n.fields)
    (hk : KeepsReserved n.fields)
    (h : Value.ofMembers (Value.entriesToJson n.fields) = asRead n.fields) :
    Node.ofJson? n.toJson = some n := by
  have hentries : Value.ofMembers (Value.entriesToJson n.entries) = asRead n.entries := by
    have hfirst : Value.ofMembers (Value.entriesToJson n.entries) =
        ("id", Value.ofJson? (.int n.id.toInt)) :: ("src", some (.text n.src)) ::
          ("nodeType", some (.text n.kind)) ::
          Value.ofMembers (Value.entriesToJson n.fields) := rfl
    rw [hfirst, Value.ofJson?_int, h]
    rfl
  rw [n.toJson_eq, Node.ofJson?, hentries, Node.nodeOfMembers?_entries ho hk]

theorem Value.ofJson?_of_node {j : Json} {n : Node} (h : Node.ofJson? j = some n) :
    Value.ofJson? j = some (.node n) := by
  cases j with
  | obj members =>
    have hnode : nodeOfMembers? (Value.ofMembers members) = some n := h
    simp only [Value.ofJson?, hnode]
  | _ => cases h

mutual

theorem Value.ofJson?_toJson : ∀ v : Value, v.Holds Entries.Ascending Entries.Ascending →
    v.Holds KeepsReserved (fun entries => ¬LooksLikeNode entries) → Value.ofJson? v.toJson = some v
  | .null, _, _ | .bool _, _, _ | .text _, _, _ => rfl
  | .int n, _, _ => Value.ofJson?_int n
  | .node (.mk id src kind fields), ho, hu => by
    have hfields := Value.ofMembers_entriesToJson fields ho.2 hu.2
    exact Value.ofJson?_of_node (Node.ofJson?_of_fields ho.1 hu.1 hfields)
  | .list items, ho, hu => by
    rw [Value.toJson, Value.ofJson?, Value.ofItems?_listToJson items ho hu, Option.map_some]
  | .map entries, ho, hu => by
    have hentries := Value.ofMembers_entriesToJson entries ho.2 hu.2
    have hnode := (nodeOfMembers?_eq_none_iff ho.1.nodup_keys).mpr hu.1
    simp only [Value.toJson, Value.ofJson?, hentries, hnode, allRead?_asRead, ho.1.ofList_eq,
      Option.map_some]

theorem Value.ofItems?_listToJson : ∀ items : List Value,
    Value.HoldsInList Entries.Ascending Entries.Ascending items →
    Value.HoldsInList KeepsReserved (fun entries => ¬LooksLikeNode entries) items →
    Value.ofItems? (Value.listToJson items) = some items
  | [], _, _ => rfl
  | v :: rest, ho, hu => by
    rw [Value.listToJson, Value.ofItems?, Value.ofJson?_toJson v ho.1 hu.1,
      Value.ofItems?_listToJson rest ho.2 hu.2]
    rfl

theorem Value.ofMembers_entriesToJson : ∀ es : List (String × Value),
    Value.HoldsInEntries Entries.Ascending Entries.Ascending es →
    Value.HoldsInEntries KeepsReserved (fun entries => ¬LooksLikeNode entries) es →
    Value.ofMembers (Value.entriesToJson es) = asRead es
  | [], _, _ => rfl
  | (key, v) :: rest, ho, hu => by
    rw [Value.entriesToJson, Value.ofMembers, Value.ofJson?_toJson v ho.1 hu.1,
      Value.ofMembers_entriesToJson rest ho.2 hu.2]
    rfl

end

theorem Node.ofJson?_toJson {n : Node} (ho : n.Ordered) (hu : n.Unmistakable) :
    Node.ofJson? n.toJson = some n := by
  obtain ⟨id, src, kind, fields⟩ := n
  exact Node.ofJson?_of_fields ho.1 hu.1 (Value.ofMembers_entriesToJson fields ho.2 hu.2)

end TreeFacts
