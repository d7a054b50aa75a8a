import TreeFacts.Proofs.Tree.Loaded

namespace TreeFacts

open Json

namespace Json

/-- The source span of an object that is read as a node without one. -/
def missingSource (members : List (String × Json)) : List (String × Json) :=
  if (Node.ofJson? (obj members)).isSome && !(members.map (·.1)).contains "src" then
    [("src", str "")]
  else []

mutual

/-- The document with an empty source span in each object that is read as a node without one. -/
def withSources : Json → Json
  | arr items => arr (withSourcesInItems items)
  | obj members => obj (withSourcesInMembers members ++ missingSource members)
  | null => null
  | bool b => bool b
  | int n => int n
  | real => real
  | str s => str s

def withSourcesInItems : List Json → List Json
  | [] => []
  | item :: items => item.withSources :: withSourcesInItems items

def withSourcesInMembers : List (String × Json) → List (String × Json)
  | [] => []
  | (key, value) :: members => (key, value.withSources) :: withSourcesInMembers members

end

theorem nesting_missingSource (members : List (String × Json)) :
    nestingOfMembers (missingSource members) = 0 := by
  unfold missingSource
  split <;> rfl

mutual

theorem nesting_withSources : ∀ j : Json, j.withSources.nesting = j.nesting
  | .arr items => by
    rw [withSources, nesting, nesting, nesting_withSourcesInItems items]
  | .obj members => by
    rw [withSources, nesting, nesting, nestingOfMembers_append, nesting_missingSource,
      Nat.max_zero, nesting_withSourcesInMembers members]
  | .null | .bool _ | .int _ | .real | .str _ => rfl

theorem nesting_withSourcesInItems : ∀ items : List Json,
    nestingOfItems (withSourcesInItems items) = nestingOfItems items
  | [] => rfl
  | item :: items => by
    rw [withSourcesInItems, nestingOfItems, nestingOfItems, nesting_withSources item,
      nesting_withSourcesInItems items]

theorem nesting_withSourcesInMembers : ∀ members : List (String × Json),
    nestingOfMembers (withSourcesInMembers members) = nestingOfMembers members
  | [] => rfl
  | (key, value) :: members => by
    rw [withSourcesInMembers, nestingOfMembers, nestingOfMembers, nesting_withSources value,
      nesting_withSourcesInMembers members]

end

end Json

variable {members : List (String × Json)} {pairs : List (String × Value)} {n : Node}

theorem Node.lookup_entries (hn : (pairs.map (·.1)).Nodup)
    (h : nodeOfMembers? (asRead pairs) = some n) {key : String} (hsrc : key ≠ "src") :
    n.entries.lookup key = pairs.lookup key := by
  obtain ⟨hid, hkind, -, hfields⟩ := (nodeOfMembers?_asRead hn).mp h
  by_cases hidKey : key = "id"
  · subst hidKey
    rw [hid]
    rfl
  by_cases hkindKey : key = "nodeType"
  · subst hkindKey
    rw [hkind]
    rfl
  have hreserved : (!reservedKeys.contains key) = true := by
    simp [reservedKeys, hidKey, hsrc, hkindKey]
  have hfilter : ((pairs.filter fun p => !reservedKeys.contains p.1).map (·.1)).Nodup :=
    hn.sublist (List.filter_sublist.map _)
  have hentries : n.entries.lookup key = n.fields.lookup key := by
    simp only [Node.entries, List.cons_append, List.nil_append, Entries.lookup_cons_of_ne hidKey,
      Entries.lookup_cons_of_ne hsrc, Entries.lookup_cons_of_ne hkindKey]
  rw [hentries, ← hfields, Entries.lookup_ofList hfilter,
    Entries.lookup_filter (f := fun key => !reservedKeys.contains key) hreserved]

/-- A node is written as what it was read from, with its source span if that was left out. -/
theorem Node.entries_perm (hn : (pairs.map (·.1)).Nodup)
    (h : nodeOfMembers? (asRead pairs) = some n) {source : List (String × Value)}
    (hs : pairs.lookup "src" = none ∧ source = [("src", .text n.src)] ∨
      pairs.lookup "src" = some (.text n.src) ∧ source = []) :
    (pairs ++ source).Perm n.entries := by
  obtain ⟨ho, hk⟩ := Node.keepsReserved_of_read hn h
  have hentries := n.nodup_entries ho hk
  rcases hs with ⟨hnone, rfl⟩ | ⟨hsome, rfl⟩
  · have hkeys : ((pairs ++ [("src", Value.text n.src)]).map (·.1)).Nodup := by
      rw [List.map_append]
      refine List.nodup_append.mpr ⟨hn, by simp, ?_⟩
      intro a ha b hb heq
      have hb : b = "src" := by simpa using hb
      subst heq hb
      exact Entries.lookup_eq_none_iff.mp hnone ha
    refine Entries.perm_of_lookup hkeys hentries fun key => ?_
    rw [List.lookup_append]
    by_cases hkey : key = "src"
    · subst hkey
      rw [hnone]
      rfl
    · rw [Node.lookup_entries hn h hkey, Entries.lookup_cons_of_ne hkey, List.lookup_nil,
        Option.or_none]
  · rw [List.append_nil]
    refine Entries.perm_of_lookup hn hentries fun key => ?_
    by_cases hkey : key = "src"
    · subst hkey
      rw [hsome]
      rfl
    · rw [Node.lookup_entries hn h hkey]

theorem missingSource_of_node (hn : (members.map (·.1)).Nodup)
    (hread : Value.ofMembers members = asRead pairs)
    (h : nodeOfMembers? (asRead pairs) = some n) :
    ∃ source : List (String × Value), missingSource members = Value.entriesToJson source ∧
      (pairs ++ source).Perm n.entries := by
  have hkeys := keys_of_read hread
  rw [← hkeys] at hn
  have hnode : Node.ofJson? (obj members) = some n := by rw [Node.ofJson?, hread, h]
  obtain ⟨-, -, hsrc, -⟩ := (nodeOfMembers?_asRead hn).mp h
  rcases hsrc with ⟨hnone, hempty⟩ | hsome
  · have hmissing : "src" ∉ members.map (·.1) :=
      hkeys ▸ Entries.lookup_eq_none_iff.mp hnone
    refine ⟨[("src", .text n.src)], ?_, Node.entries_perm hn h (.inl ⟨hnone, rfl⟩)⟩
    simp only [missingSource, hnode, Option.isSome_some, List.contains_eq_mem, hmissing,
      decide_false, Bool.not_false, Bool.and_self, ↓reduceIte, hempty]
    rfl
  · have hgiven : "src" ∈ members.map (·.1) :=
      hkeys ▸ List.mem_map.mpr ⟨_, Entries.mem_of_lookup hsome, rfl⟩
    refine ⟨[], ?_, Node.entries_perm hn h (.inr ⟨hsome, rfl⟩)⟩
    simp only [missingSource, hgiven, List.contains_eq_mem, decide_true, Bool.not_true,
      Bool.and_false, Bool.false_eq_true, ↓reduceIte]
    rfl

theorem perm_entriesToJson {es fs : List (String × Value)} (h : es.Perm fs) :
    (Value.entriesToJson es).Perm (Value.entriesToJson fs) := by
  rw [Value.entriesToJson_eq_map, Value.entriesToJson_eq_map]
  exact h.map _

theorem same_node (hn : (members.map (·.1)).Nodup) (hread : Value.ofMembers members = asRead pairs)
    (hsame : SameMembers (withSourcesInMembers members) (Value.entriesToJson pairs))
    (h : nodeOfMembers? (asRead pairs) = some n) :
    Same (obj members).withSources n.toJson := by
  obtain ⟨source, hmissing, hperm⟩ := missingSource_of_node hn hread h
  have happend : Value.entriesToJson pairs ++ missingSource members =
      Value.entriesToJson (pairs ++ source) := by
    simp only [hmissing, Value.entriesToJson_eq_map, List.map_append]
  rw [withSources, n.toJson_eq]
  exact .obj (hsame.append _) (happend ▸ perm_entriesToJson hperm)

theorem same_map (hn : (members.map (·.1)).Nodup) (hread : Value.ofMembers members = asRead pairs)
    (hsame : SameMembers (withSourcesInMembers members) (Value.entriesToJson pairs))
    (h : nodeOfMembers? (asRead pairs) = none) :
    Same (obj members).withSources (Value.map (Entries.ofList pairs)).toJson := by
  have hmissing : missingSource members = [] := by
    have hnode : Node.ofJson? (obj members) = none := by rw [Node.ofJson?, hread, h]
    rw [missingSource, hnode]
    rfl
  rw [← keys_of_read hread] at hn
  rw [withSources, hmissing, List.append_nil, Value.toJson]
  exact .obj hsame (perm_entriesToJson (Entries.ofList_perm hn).symm)

mutual

/-- What a value is written as is what it was read from. -/
theorem Value.same_toJson : ∀ (j : Json) {v : Value}, j.NoRepeats → Value.ofJson? j = some v →
    Same j.withSources v.toJson
  | .null, _, _, h | .bool _, _, _, h | .str _, _, _, h => by
    cases h
    exact .refl _
  | .int m, _, _, h => by
    obtain ⟨n, hn, rfl⟩ := Option.map_eq_some_iff.mp h
    rw [Value.toJson, Text.toInt_of_int64? hn]
    exact .refl _
  | .real, _, _, h => by cases h
  | .arr items, _, hj, h => by
    obtain ⟨vs, hvs, rfl⟩ := Option.map_eq_some_iff.mp h
    exact .arr (Value.same_listToJson items hj hvs)
  -- Whether an object was read as a node or as a map, its members were read under their own keys.
  | .obj members, v, hj, h => by
    obtain ⟨pairs, hread, hv⟩ := Value.ofJson?_obj_eq_some h
    have hsame := Value.same_entriesToJson members hj.2 hread
    rcases hv with ⟨n, hnode, rfl⟩ | ⟨hnode, rfl⟩
    · exact same_node hj.1 hread hsame hnode
    · exact same_map hj.1 hread hsame hnode

theorem Value.same_listToJson : ∀ (items : List Json) {vs : List Value}, NoRepeatsInItems items →
    Value.ofItems? items = some vs →
    SameItems (withSourcesInItems items) (Value.listToJson vs)
  | [], _, _, h => by
    cases h
    exact .nil
  | item :: items, _, hj, h => by
    obtain ⟨v, hv, h⟩ := Option.bind_eq_some_iff.mp h
    obtain ⟨vs, hvs, h⟩ := Option.bind_eq_some_iff.mp h
    cases h
    exact .cons (Value.same_toJson item hj.1 hv) (Value.same_listToJson items hj.2 hvs)

theorem Value.same_entriesToJson : ∀ (members : List (String × Json))
    {pairs : List (String × Value)}, NoRepeatsInMembers members →
    Value.ofMembers members = asRead pairs →
    SameMembers (withSourcesInMembers members) (Value.entriesToJson pairs)
  | [], [], _, _ => .nil
  | [], _ :: _, _, h => by cases h
  | _ :: _, [], _, h => by cases h
  | (key, j) :: members, (key', v) :: pairs, hj, h => by
    obtain ⟨hfirst, hrest⟩ := List.cons.inj h
    obtain ⟨rfl, hv⟩ := Prod.mk.inj hfirst
    exact .cons (Value.same_toJson j hj.1 hv) (Value.same_entriesToJson members hj.2 hrest)

end

theorem Node.same_toJson {j : Json} (hj : j.NoRepeats) (h : Node.ofJson? j = some n) :
    Same j.withSources n.toJson :=
  Value.same_toJson j hj (Value.ofJson?_of_node h)

/-- Reading undoes writing where no map is taken for a node, and writing undoes reading up to the
order of members and the source spans that were left out. -/
theorem Node.parse_toJson :
    (∀ n : Node, n.Ordered → n.Unmistakable → n.toJson.nesting ≤ maxDepth →
      Node.parse? n.toJson.render = some n) ∧
    ∀ (text : String) (j : Json) (n : Node), Json.parse text = some j → j.NoRepeats →
      Node.parse? text = some n →
      Same j.withSources n.toJson ∧ Json.parse n.toJson.render = some n.toJson ∧
        Node.parse? n.toJson.render = some n := by
  constructor
  · intro n ho hu hd
    rw [Node.parse?, parse_render hd, Option.bind_some, Node.ofJson?_toJson ho hu]
  · intro text j n hparse hj h
    rw [Node.parse?, hparse, Option.bind_some] at h
    have hsame := Node.same_toJson hj h
    have hd : n.toJson.nesting ≤ maxDepth := by
      rw [← hsame.nesting_eq, nesting_withSources]
      exact nesting_of_parse hparse
    have hagain := parse_render hd
    refine ⟨hsame, hagain, ?_⟩
    rw [Node.parse?, hagain, Option.bind_some]
    exact Node.ofJson?_toJson (Node.ordered_of_read hj h) (Node.unmistakable_of_read hj h)

/-- Members out of order, a node without its source span in a map, and a map that is almost one. -/
def looseDocument : Json :=
  .obj [("nodeType", .str "Block"), ("id", .int 1),
    ("body", .arr [.obj [("src", .str "0:1:0"), ("id", .int 2), ("nodeType", .str "Literal"),
      ("value", .null)], .bool true, .int (-7)]),
    ("meta", .obj [("b", .obj [("nodeType", .str "Note"), ("id", .int 3)]),
      ("a", .obj [("id", .int 4), ("nodeType", .int 5)])])]

def looseNode : Node :=
  .mk 1 "" "Block"
    [("body", .list [.node (.mk 2 "0:1:0" "Literal" [("value", .null)]), .bool true, .int (-7)]),
      ("meta", .map [("a", .map [("id", .int 4), ("nodeType", .int 5)]),
        ("b", .node (.mk 3 "" "Note" []))])]

def looseText : String :=
  "\x7b\"nodeType\":\"Block\",\"id\":1,\"body\":[\x7b\"src\":\"0:1:0\",\"id\":2," ++
    "\"nodeType\":\"Literal\",\"value\":null\x7d,true,-7],\"meta\":\x7b\"b\":" ++
    "\x7b\"nodeType\":\"Note\",\"id\":3\x7d,\"a\":\x7b\"id\":4,\"nodeType\":5\x7d\x7d\x7d"

theorem parse_toJson_loose :
    Json.parse looseText = some looseDocument ∧ Node.parse? looseText = some looseNode ∧
      Same looseDocument.withSources looseNode.toJson ∧
      Json.parse looseNode.toJson.render = some looseNode.toJson ∧
      Node.parse? looseNode.toJson.render = some looseNode := by
  have htext : looseText = looseDocument.render := by decide +kernel
  have hparse : Json.parse looseText = some looseDocument :=
    htext ▸ parse_render (by decide)
  have hloaded : Node.ofJson? looseDocument = some looseNode := by rfl
  have hnode : Node.parse? looseText = some looseNode := by
    rw [Node.parse?, hparse, Option.bind_some, hloaded]
  have hrepeats : looseDocument.NoRepeats := by
    simp [looseDocument, NoRepeats, NoRepeatsInItems, NoRepeatsInMembers]
  have hordered := Node.ordered_of_read hrepeats hloaded
  have hplain := Node.unmistakable_of_read hrepeats hloaded
  obtain ⟨hread, hwritten⟩ := Node.parse_toJson
  obtain ⟨hsame, hagain, -⟩ := hwritten looseText looseDocument looseNode hparse hrepeats hnode
  exact ⟨hparse, hnode, hsame, hagain, hread looseNode hordered hplain (by decide)⟩

end TreeFacts
