import Mathlib.Data.List.Zip
import TreeFacts.Encoding.Structured
import TreeFacts.Entries
import TreeFacts.Proofs.Types.Subtyping

namespace TreeFacts

/-- No two fields of a record, and no two arguments of a branch, have one name. -/
def TypeDef.DistinctFields : TypeDef → Prop
  | subtype _ _ => True
  | record _ fields => (fields.map (·.1)).Nodup
  | union _ branches => ∀ b ∈ branches, (b.fields.map (·.1)).Nodup

instance (d : TypeDef) : Decidable d.DistinctFields :=
  match d with
  | .subtype _ _ => inferInstanceAs (Decidable True)
  | .record _ fields => inferInstanceAs (Decidable (fields.map (·.1)).Nodup)
  | .union _ branches => inferInstanceAs (Decidable (∀ b ∈ branches, (b.fields.map (·.1)).Nodup))

/-- A map that gives the fields the elements of a list in order. Elements that are null may be
missing. -/
structure Names (fields : FieldTypes) (items : List Value) (entries : Entries Value) : Prop where
  length : items.length = fields.length
  sound : ∀ e ∈ entries, e ∈ (fields.map (·.1)).zip items
  complete : ∀ e ∈ (fields.map (·.1)).zip items, e.2.isNull = false → e ∈ entries

namespace Registry

def DistinctFields (r : Registry) : Prop := ∀ d ∈ r.defs, d.DistinctFields

instance (r : Registry) : Decidable r.DistinctFields :=
  inferInstanceAs (Decidable (∀ d ∈ r.defs, d.DistinctFields))

mutual

/-- One positional list that gives the fields of a record or the arguments of a branch, in a value of
the given type, is written as a map. -/
inductive Respells (r : Registry) : ColumnType → Value → Value → Prop
  | record {type base : ColumnType} {fields : FieldTypes} {v w : Value} : r.Leads type base →
    r.record? base.name = some fields → RespellsFields r fields v w → Respells r type v w
  | branch {type base : ColumnType} {branches : List Branch} {tag : String} {b : Branch}
    {v w : Value} : r.Leads type base → r.union? base.name = some branches →
    branches.find? (·.name == tag) = some b → RespellsFields r b.fields v w →
    Respells r type (.map [(tag, v)]) (.map [(tag, w)])

/-- The same for a value that gives the given fields: it is itself that list, or the list is
somewhere in one of its elements. -/
inductive RespellsFields (r : Registry) : FieldTypes → Value → Value → Prop
  | whole {fields : FieldTypes} {items : List Value} {entries : Entries Value} :
    Names fields items entries → RespellsFields r fields (.list items) (.map entries)
  | element {before after : FieldTypes} {name : String} {type : ColumnType} {vs ws : List Value}
    {v w : Value} : vs.length = before.length → Respells r type v w →
    RespellsFields r (before ++ (name, type) :: after) (.list (vs ++ v :: ws))
      (.list (vs ++ w :: ws))
  | entry {fields : FieldTypes} {name : String} {type : ColumnType} {es fs : Entries Value}
    {v w : Value} : (name, type) ∈ fields → Respells r type v w →
    RespellsFields r fields (.map (es ++ (name, v) :: fs)) (.map (es ++ (name, w) :: fs))

end

variable {r : Registry} {type base : ColumnType} {name : String}

theorem DistinctFields.record (hd : r.DistinctFields) {fields : FieldTypes}
    (h : r.record? name = some fields) : (fields.map (·.1)).Nodup := by
  obtain ⟨_, hget⟩ := record?_eq_some.mp h
  exact hd _ (List.mem_of_find?_eq_some hget)

theorem DistinctFields.branch (hd : r.DistinctFields) {branches : List Branch}
    (h : r.union? name = some branches) {b : Branch} (hb : b ∈ branches) :
    (b.fields.map (·.1)).Nodup := by
  obtain ⟨_, hget⟩ := union?_eq_some.mp h
  exact hd _ (List.mem_of_find?_eq_some hget) b hb

/-- A type that leads to a record is that record, or a subtype and no union. -/
theorem record?_of_leads (h : r.Leads type base) {fields : FieldTypes}
    (hf : r.record? base.name = some fields) : r.union? type.name = none ∧
      (r.record? type.name = some fields ∨ r.record? type.name = none) := by
  rcases Relation.ReflTransGen.cases_head h with rfl | ⟨next, hnext, -⟩
  · obtain ⟨_, hget⟩ := record?_eq_some.mp hf
    exact ⟨by rw [union?, hget], Or.inl hf⟩
  · exact ⟨hnext.not_structured.2, Or.inr hnext.not_structured.1⟩

theorem union?_of_leads (h : r.Leads type base) {branches : List Branch}
    (hb : r.union? base.name = some branches) : r.record? type.name = none ∧
      (r.union? type.name = some branches ∨ r.union? type.name = none) := by
  rcases Relation.ReflTransGen.cases_head h with rfl | ⟨next, hnext, -⟩
  · obtain ⟨_, hget⟩ := union?_eq_some.mp hb
    exact ⟨by rw [record?, hget], Or.inl hb⟩
  · exact ⟨hnext.not_structured.1, Or.inr hnext.not_structured.2⟩

end Registry

theorem Value.eq_null_of_isNull {v : Value} (h : v.isNull = true) : v = .null := by
  cases v with
  | null => rfl
  | bool _ | int _ | text _ | node _ | list _ | map _ => cases h

/-- Under the name of a field the map holds the element of the list at its place, or nothing if that
is null. -/
theorem Names.lookup {fields : FieldTypes} {items : List Value} {entries : Entries Value}
    (h : Names fields items entries) (hn : (fields.map (·.1)).Nodup) {name : String} {v : Value}
    (hv : (name, v) ∈ (fields.map (·.1)).zip items) : (entries.lookup name).getD .null = v := by
  cases hlookup : entries.lookup name with
  | none =>
    rw [Option.getD_none]
    by_contra hne
    have hnull : v.isNull = false :=
      Bool.eq_false_iff.mpr fun hv' => hne (v.eq_null_of_isNull hv').symm
    exact Entries.lookup_eq_none_iff.mp hlookup
      (List.mem_map.mpr ⟨_, h.complete _ hv hnull, rfl⟩)
  | some w =>
    rw [Option.getD_some]
    have hkeys : (((fields.map (·.1)).zip items).map (·.1)).Nodup := by
      rwa [List.map_fst_zip (by rw [List.length_map, h.length])]
    have hw := h.sound _ (Entries.mem_of_lookup hlookup)
    exact Option.some.inj ((Entries.lookup_of_mem hkeys hw).symm.trans
      (Entries.lookup_of_mem hkeys hv))

namespace Reading

open Registry

variable {c : FieldContext} {type : ColumnType} {v w : Value}

/-- A value with parts, which is nothing that a value without parts can be read as. -/
structure Composite (v : Value) : Prop where
  int : v.int? = none
  bool : v.bool? = none
  null : v.isNull = false
  nodeId : v.nodeId? = none
  text : v.text? = none

theorem composite_list (items : List Value) : Composite (.list items) :=
  ⟨rfl, rfl, rfl, rfl, rfl⟩

theorem composite_map (entries : Entries Value) : Composite (.map entries) :=
  ⟨rfl, rfl, rfl, rfl, rfl⟩

variable {fv fw : String → FieldTypes → Except Error (Option (List FactValue))}
  {bv bw : Option (String × Reading)}

/-- Two values with parts are read alike at a type that is no union if they give the same fields. -/
theorem value_eq_of_fields (hv : Composite v) (hw : Composite w)
    (hunion : c.registry.union? type.name = none)
    (hfields : ∀ fields, c.registry.record? type.name = some fields →
      fv type.name fields = fw type.name fields) :
    (ofValue c v fv bv).value type = (ofValue c w fw bw).value type := by
  simp only [ofValue, hv.int, hv.bool, hv.null, hv.nodeId, hv.text, hw.int, hw.bool, hw.null,
    hw.nodeId, hw.text]
  cases c.registry.classify type with
  | error e => rfl
  | ok k =>
    cases k with
    | number | symbol | bool | nodeId => rfl
    | record =>
      simp only [ok_bind]
      cases hf : c.registry.record? type.name with
      | none => rfl
      | some fields => simp only [hfields fields hf]
    | union => simp only [ok_bind, hunion]

/-- Two values that name one branch are read alike at a type that is no record if they give the branch
the same arguments. -/
theorem value_eq_of_arguments (hv : Composite v) (hw : Composite w)
    (hrecord : c.registry.record? type.name = none) {tag : String} {args args' : Reading}
    (hargs : ∀ branches b, c.registry.union? type.name = some branches →
      branches.find? (·.name == tag) = some b →
      args.fields b.name b.fields = args'.fields b.name b.fields) :
    (ofValue c v fv (some (tag, args))).value type =
      (ofValue c w fw (some (tag, args'))).value type := by
  simp only [ofValue, hv.int, hv.bool, hv.null, hv.nodeId, hv.text, hw.int, hw.bool, hw.null,
    hw.nodeId, hw.text]
  cases c.registry.classify type with
  | error e => rfl
  | ok k =>
    cases k with
    | number | symbol | bool | nodeId => rfl
    | record => simp only [ok_bind, hrecord]
    | union =>
      simp only [ok_bind, FieldContext.require]
      cases hb : c.registry.union? type.name with
      | none => rfl
      | some branches =>
        simp only
        cases hfind : branches.find? (·.name == tag) with
        | none => rfl
        | some b => simp only [ok_bind, hargs branches b hb hfind]

theorem ofItems_eq_map (c : FieldContext) (items : List Value) :
    ofItems c items = items.map (of c) := by
  induction items with
  | nil => rfl
  | cons v items ih => rw [ofItems, ih, List.map_cons]

theorem ofEntries_eq_map (c : FieldContext) (entries : Entries Value) :
    ofEntries c entries = entries.map fun e => (e.1, of c e.2) := by
  induction entries with
  | nil => rfl
  | cons e entries ih => rw [ofEntries, ih, List.map_cons]

theorem lookup_ofEntries (c : FieldContext) (entries : Entries Value) (key : String) :
    ((ofEntries c entries).lookup key).getD (absent c) =
      of c ((entries.lookup key).getD .null) := by
  rw [ofEntries_eq_map]
  have hlookup := Entries.lookup_map_keys (f := id) (fun _ _ h => h) (of c) entries key
  simp only [id] at hlookup
  rw [hlookup]
  cases entries.lookup key with
  | none => rfl
  | some v => rfl

section

variable {name : String} {fields before after : FieldTypes} {items vs ws : List Value}
  {entries es fs : Entries Value}

theorem named_ofEntries (c : FieldContext) (entries : Entries Value) (owner : String)
    (fields : FieldTypes) : named c (ofEntries c entries) owner fields =
      (fields.mapM fun field =>
        (of c ((entries.lookup field.1).getD .null)).value field.2).map some := by
  simp only [named, lookup_ofEntries]

theorem positional_ofItems (c : FieldContext) (hlen : items.length = fields.length)
    (owner : String) : positional c (ofItems c items) owner fields =
      ((items.zip fields).mapM fun p => (of c p.1).value p.2.2).map some := by
  rw [positional, ofItems_eq_map, List.length_map, if_pos hlen, List.zip_map_left, List.mapM_map]
  rfl

theorem positional_eq_named (h : Names fields items entries) (hn : (fields.map (·.1)).Nodup)
    (owner : String) :
    positional c (ofItems c items) owner fields = named c (ofEntries c entries) owner fields := by
  have hfields : (items.zip fields).map (·.2) = fields :=
    List.map_snd_zip (Nat.le_of_eq h.length.symm)
  rw [positional_ofItems c h.length, named_ofEntries]
  conv_rhs => rw [← hfields, List.mapM_map]
  congr 1
  refine mapM_congr fun p hp => ?_
  have hswap : (p.2, p.1) ∈ fields.zip items := by
    rw [← List.zip_swap items fields]
    exact List.mem_map_of_mem hp
  have hmem : (p.2.1, p.1) ∈ (fields.map (·.1)).zip items := by
    rw [List.zip_map_left]
    exact List.mem_map.mpr ⟨_, hswap, rfl⟩
  rw [Function.comp_apply, h.lookup hn hmem]

theorem positional_element (hlen : vs.length = before.length)
    (h : (of c v).value type = (of c w).value type) (owner : String) :
    positional c (ofItems c (vs ++ v :: ws)) owner (before ++ (name, type) :: after) =
      positional c (ofItems c (vs ++ w :: ws)) owner (before ++ (name, type) :: after) := by
  have hcount : (ofItems c (vs ++ v :: ws)).length = (ofItems c (vs ++ w :: ws)).length := by
    simp only [ofItems_eq_map, List.length_map, List.length_append, List.length_cons]
  have hfront : (vs.map (of c)).length = before.length := by rw [List.length_map, hlen]
  unfold positional
  rw [hcount]
  split
  · simp only [ofItems_eq_map, List.map_append, List.map_cons, List.zip_append hfront,
      List.zip_cons_cons, List.mapM_append, List.mapM_cons, h]
  · rfl

theorem named_entry (hn : (fields.map (·.1)).Nodup) (hmem : (name, type) ∈ fields)
    (h : (of c v).value type = (of c w).value type) (owner : String) :
    named c (ofEntries c (es ++ (name, v) :: fs)) owner fields =
      named c (ofEntries c (es ++ (name, w) :: fs)) owner fields := by
  rw [named_ofEntries, named_ofEntries]
  congr 1
  refine mapM_congr fun field hfield => ?_
  rw [List.lookup_append, List.lookup_append]
  by_cases hname : field.1 = name
  · have htype : field.2 = type := by
      have hfound := Entries.lookup_of_mem hn hmem
      rw [← hname, Entries.lookup_of_mem hn hfield] at hfound
      exact Option.some.inj hfound
    rw [hname, htype, List.lookup_cons_self, List.lookup_cons_self]
    cases es.lookup name with
    | none => exact h
    | some u => rfl
  · rw [Entries.lookup_cons_of_ne hname, Entries.lookup_cons_of_ne hname]

end

theorem composite_of_respells {fields : FieldTypes} (h : RespellsFields c.registry fields v w) :
    Composite v ∧ Composite w := by
  cases h with
  | whole => exact ⟨composite_list _, composite_map _⟩
  | element => exact ⟨composite_list _, composite_list _⟩
  | entry => exact ⟨composite_map _, composite_map _⟩

/-- Every reading is that of a value with fields and, it may be, a branch. -/
theorem of_eq_ofValue (c : FieldContext) (v : Value) :
    ∃ branch, of c v = ofValue c v (of c v).fields branch := by
  cases v with
  | null | bool _ | int _ | text _ | node _ | list _ | map _ => exact ⟨_, by rw [of]; rfl⟩

/-- At a type that leads to a record only the fields of a value with parts count. -/
theorem value_eq_of_record {base : ColumnType} {fields : FieldTypes}
    (hleads : c.registry.Leads type base) (hbase : c.registry.record? base.name = some fields)
    (hv : Composite v) (hw : Composite w)
    (h : (of c v).fields type.name fields = (of c w).fields type.name fields) :
    (of c v).value type = (of c w).value type := by
  obtain ⟨hunion, hrecord⟩ := record?_of_leads hleads hbase
  obtain ⟨bv, hofv⟩ := of_eq_ofValue c v
  obtain ⟨bw, hofw⟩ := of_eq_ofValue c w
  rw [hofv, hofw]
  refine value_eq_of_fields hv hw hunion fun fields' hfields' => ?_
  rcases hrecord with hown | hnone
  · have hsame : fields = fields' := Option.some.inj (hown.symm.trans hfields')
    rw [← hsame, h]
  · rw [hnone] at hfields'
    cases hfields'

/-- At a type that leads to a union only the arguments count of a value that names a branch. -/
theorem value_eq_of_union {base : ColumnType} {branches : List Branch} {tag : String} {b : Branch}
    (hleads : c.registry.Leads type base) (hbase : c.registry.union? base.name = some branches)
    (hfind : branches.find? (·.name == tag) = some b)
    (h : (of c v).fields b.name b.fields = (of c w).fields b.name b.fields) :
    (of c (.map [(tag, v)])).value type = (of c (.map [(tag, w)])).value type := by
  obtain ⟨hrecord, hunion⟩ := union?_of_leads hleads hbase
  rw [of, of]
  refine value_eq_of_arguments (composite_map _) (composite_map _) hrecord
    fun branches' b' hbranches' hfind' => ?_
  rcases hunion with hown | hnone
  · have hsame : branches = branches' := Option.some.inj (hown.symm.trans hbranches')
    rw [← hsame, hfind] at hfind'
    cases hfind'
    exact h
  · rw [hnone] at hbranches'
    cases hbranches'

mutual

theorem value_of_respells (hd : c.registry.DistinctFields) {type : ColumnType} {v w : Value} :
    c.registry.Respells type v w → (of c v).value type = (of c w).value type
  | .record hleads hbase hparts => by
    obtain ⟨hv, hw⟩ := composite_of_respells hparts
    have hfields := fields_of_respells hd (hd.record hbase) type.name hparts
    exact value_eq_of_record hleads hbase hv hw hfields
  | .branch (b := b) hleads hbase hfind hparts => by
    have hnames := hd.branch hbase (List.mem_of_find?_eq_some hfind)
    have hargs := fields_of_respells hd hnames b.name hparts
    exact value_eq_of_union hleads hbase hfind hargs

theorem fields_of_respells (hd : c.registry.DistinctFields) {fields : FieldTypes} {v w : Value}
    (hn : (fields.map (·.1)).Nodup) (owner : String) :
    RespellsFields c.registry fields v w →
      (of c v).fields owner fields = (of c w).fields owner fields
  | .whole hnames => by
    rw [of, of]
    exact positional_eq_named hnames hn owner
  | .element hlen hpart => by
    rw [of, of]
    exact positional_element hlen (value_of_respells hd hpart) owner
  | .entry hmem hpart => by
    rw [of, of]
    exact named_entry hn hmem (value_of_respells hd hpart) owner

end

/-- However the records and the branches within a value are written, by position or by name, it is read
alike: as the same value, or as none. -/
theorem value_respelled (hd : c.registry.DistinctFields)
    (h : Relation.EqvGen (c.registry.Respells type) v w) :
    (of c v).value type = (of c w).value type := by
  induction h with
  | rel v w h => exact value_of_respells hd h
  | refl v => rfl
  | symm v w _ ih => exact ih.symm
  | trans u v w _ _ ih ih' => exact ih.trans ih'

/-- Where something stands, if that is known. -/
def locBranches : List Branch :=
  [⟨"At", [("span", .named "Span"), ("node", .id)]⟩, ⟨"Unknown", []⟩]

def locContext : FieldContext :=
  ⟨⟨Registry.empty.defs ++ [.record "Span" [("start", .number), ("end", .number)],
    .union "Loc" locBranches], none⟩, "Call", "loc"⟩

def placedLoc : Value := .map [("At", .list [.list [.int 3, .int 5], .null])]

def namedLoc : Value :=
  .map [("At", .map [("span", .map [("end", .int 5), ("start", .int 3)])])]

/-- The node that is missing is left out first, the inner record is written by name next. -/
theorem respells_loc :
    Relation.EqvGen (locContext.registry.Respells (.named "Loc")) placedLoc namedLoc := by
  have hspan : Names [("start", .number), ("end", .number)] [.int 3, .int 5]
      [("end", .int 5), ("start", .int 3)] := ⟨rfl, by simp, by simp⟩
  have hargs : Names [("span", .named "Span"), ("node", .id)] [.list [.int 3, .int 5], .null]
      [("span", .list [.int 3, .int 5])] := ⟨rfl, by simp, by simp [Value.isNull]⟩
  have hinner : locContext.registry.Respells (.named "Span") (.list [.int 3, .int 5])
      (.map [("end", .int 5), ("start", .int 3)]) := .record .refl (by decide) (.whole hspan)
  have hentry : RespellsFields locContext.registry [("span", .named "Span"), ("node", .id)]
      (.map [("span", .list [.int 3, .int 5])])
      (.map [("span", .map [("end", .int 5), ("start", .int 3)])]) :=
    @RespellsFields.entry _ _ _ _ [] [] _ _ List.mem_cons_self hinner
  have hunion : locContext.registry.union? "Loc" = some locBranches := by decide
  refine .trans _ (.map [("At", .map [("span", .list [.int 3, .int 5])])]) _ (.rel _ _ ?_)
    (.rel _ _ ?_)
  · exact .branch .refl hunion rfl (.whole hargs)
  · exact .branch .refl hunion rfl hentry

theorem value_respelled_loc :
    locContext.registry.DistinctFields ∧
      Relation.EqvGen (locContext.registry.Respells (.named "Loc")) placedLoc namedLoc ∧
      (of locContext placedLoc).value (.named "Loc") =
        (of locContext namedLoc).value (.named "Loc") ∧
      (of locContext placedLoc).value (.named "Loc") =
        .ok (.branch "At" [.record [.number 3, .number 5], .number absentId]) := by
  have hd : locContext.registry.DistinctFields := by decide
  exact ⟨hd, respells_loc, value_respelled hd respells_loc, rfl⟩

end Reading

end TreeFacts
