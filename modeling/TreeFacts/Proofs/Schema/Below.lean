import Mathlib.Data.List.Perm.Subperm
import TreeFacts.Proofs.Schema.Identifiers
import TreeFacts.Proofs.Solidity.Enrichment

namespace TreeFacts

namespace Registry

variable {r r' q : Registry} {h : Hierarchy} {enums : List String}

/-- Every type that is defined has a class. -/
def Classifies (r : Registry) : Prop :=
  ∀ name, (r.get? name).isSome → ∃ c, r.classify (.named name) = .ok c

theorem Classifies.of_extends (hr : r.Classifies) (he : r.Extends r')
    (hnew : ∀ name, (r'.get? name).isSome → r.get? name = none →
      ∃ c, r'.classify (.named name) = .ok c) : r'.Classifies := by
  intro name hsome
  cases hget : r.get? name with
  | none => exact hnew name hsome hget
  | some d =>
    obtain ⟨c, hc⟩ := hr name (by rw [hget]; rfl)
    exact ⟨c, he.classify_eq hc⟩

theorem Classifies.push_subtype (hr : r.Classifies) {kind : String} {base : ColumnType}
    (hnew : r.get? (kind ++ "Id") = none) {c : TypeClass} (hbase : r.classify base = .ok c) :
    (r.push (.subtype (kind ++ "Id") base)).Classifies ∧
      (r.push (.subtype (kind ++ "Id") base)).classify (.named (kind ++ "Id")) = .ok c := by
  obtain ⟨hbool, hid⟩ := idName_ne_builtin kind
  have hclass := classify_push_subtype hnew hbool hid hbase
  refine ⟨hr.of_extends (extends_push _ _) fun name hsome hnone => ?_, hclass⟩
  by_cases hname : kind ++ "Id" = name
  · exact ⟨c, hname ▸ hclass⟩
  · have hsame : (r.push (.subtype (kind ++ "Id") base)).get? name = r.get? name :=
      get?_push_of_ne hname
    rw [hsame, hnone] at hsome
    cases hsome

theorem internChain_classifies (hr : r.Classifies) (chain : List String) :
    (r.internChain chain).2.Classifies ∧
      ∃ c, (r.internChain chain).2.classify (r.internChain chain).1 = .ok c := by
  induction chain with
  | nil => exact ⟨hr, .nodeId, rfl⟩
  | cons kind chain ih =>
    cases chain with
    | nil => exact ⟨hr, .nodeId, rfl⟩
    | cons above rest =>
      obtain ⟨hr', c, hbase⟩ := ih
      unfold internChain
      simp only
      split
      next hsome => exact ⟨hr', hr' _ hsome⟩
      next hnone =>
        obtain ⟨hpush, hclass⟩ := hr'.push_subtype (Option.not_isSome_iff_eq_none.mp hnone) hbase
        exact ⟨hpush, c, hclass⟩

theorem listType_classifies (hr : r.Classifies) {element type : ColumnType}
    (hlist : r.listType element = .ok (type, r')) : r'.Classifies := by
  refine hr.of_extends (listType_extends hlist) fun name hsome hnone => ?_
  by_cases hname : element.name ++ "List" = name
  · have htype : type = .named name := by
      unfold listType at hlist
      obtain ⟨_, -, heq⟩ := map_eq_ok.mp hlist
      cases heq
      rw [hname]
    exact ⟨.record, htype ▸ (listType_isListOf hlist).1⟩
  · rw [get?_listType_of_ne hlist hname, hnone] at hsome
    cases hsome

/-- One registry defines part of what another defines, the enumerations in any case. Whatever it may
still define for the kinds, the other defines alike. -/
structure Below (h : Hierarchy) (enums : List String) (q r : Registry) : Prop where
  hierarchy : q.hierarchy = some h
  hierarchy' : r.hierarchy = some h
  get? : ∀ {name d}, q.get? name = some d → r.get? name = some d
  entries : ∀ name ∈ enums, q.get? name = some (.subtype name .symbol)
  symbols : q.HoldsEnums enums
  interns : r.Interns h enums
  classifies : q.Classifies

namespace Below

theorem grows (hb : Below h enums q r) (hgrows : r.Grows r') : Below h enums q r' := by
  obtain ⟨hh, hi⟩ := hgrows.interns hb.hierarchy' hb.interns
  exact ⟨hb.hierarchy, hh, fun hd => get?_mono hgrows.extends.defs (hb.get? hd), hb.entries,
    hb.symbols, hi, hb.classifies⟩

/-- The lesser registry takes over a definition of the other. -/
theorem push (hb : Below h enums q r) {d : TypeDef} (hfree : q.get? d.name = none)
    (hd : r.get? d.name = some d) (hc : (q.push d).Classifies) : Below h enums (q.push d) r := by
  have he := extends_push q d
  refine ⟨hb.hierarchy, hb.hierarchy', ?_, ?_, hb.symbols.extends he, hb.interns, hc⟩
  · intro name found hfound
    by_cases hname : d.name = name
    · subst hname
      rw [get?_push_self hfree] at hfound
      rw [← hfound]
      exact hd
    · rw [get?_push_of_ne hname] at hfound
      exact hb.get? hfound
  · intro name hname
    exact get?_mono he.defs (hb.entries name hname)

theorem internChain (hb : Below h enums q r) {kind : String} {chain : List String}
    (hc : h.Chain kind chain) :
    (q.internChain chain).1 = (r.internChain chain).1 ∧
      Below h enums (q.internChain chain).2 (r.internChain chain).2 := by
  induction hc with
  | root => exact ⟨rfl, hb⟩
  | @base kind base above hroot hbase hchain ih =>
    obtain ⟨rest, rfl⟩ := hchain.exists_cons
    obtain ⟨htype, hb'⟩ := ih
    obtain ⟨hq, c, hclass⟩ := internChain_classifies hb.classifies (base :: rest)
    have hidentifier := (internChain_interns hb.interns hchain).1
    unfold Registry.internChain
    simp only [htype, true_and]
    rw [htype] at hclass
    rw [hidentifier] at hclass ⊢
    cases hfound : (q.internChain (base :: rest)).2.get? (kind ++ "Id") with
    | some d =>
      have hfound' := hb'.get? hfound
      simp only [hfound', Option.isSome_some, if_true]
      exact hb'
    | none =>
      -- The name is no enumeration, so the other registry has it for the same identifier type.
      have hfree : kind ++ "Id" ∉ enums := by
        intro hmem
        rw [hb'.entries _ hmem] at hfound
        cases hfound
      obtain ⟨hpush, -⟩ := hq.push_subtype hfound hclass
      simp only [Option.isSome_none, Bool.false_eq_true, if_false]
      cases hfound' : (r.internChain (base :: rest)).2.get? (kind ++ "Id") with
      | some d =>
        have hd := hb'.interns hbase hfree hfound'
        subst hd
        simp only [Option.isSome_some, if_true]
        exact hb'.push hfound hfound' hpush
      | none =>
        simp only [Option.isSome_none, Bool.false_eq_true, if_false]
        have hself := @get?_push_self _ (.subtype (kind ++ "Id") (h.identifier base)) hfound'
        have hright : Below h enums (q.internChain (base :: rest)).2
            ((r.internChain (base :: rest)).2.push
              (.subtype (kind ++ "Id") (h.identifier base))) :=
          ⟨hb'.hierarchy, hb'.hierarchy', fun hd => get?_mono (extends_push _ _).defs (hb'.get? hd),
            hb'.entries, hb'.symbols, Interns.push_subtype hb'.interns hbase, hb'.classifies⟩
        exact hright.push hfound hself hpush

theorem identifierType (hb : Below h enums q r) {kind : String} {type : ColumnType}
    (hid : r.identifierType kind = .ok (type, r')) :
    ∃ q', q.identifierType kind = .ok (type, q') ∧ Below h enums q' r' ∧
      ∃ c, q'.classify type = .ok c := by
  have hancestors : q.ancestors kind = r.ancestors kind := by
    unfold ancestors
    rw [hb.hierarchy, hb.hierarchy']
  unfold Registry.identifierType at hid ⊢
  rw [hb.hierarchy'] at hid
  rw [hb.hierarchy]
  obtain ⟨chain, hchain, heq⟩ := map_eq_ok.mp hid
  have hc : h.Chain kind chain := by
    unfold ancestors at hchain
    rw [hb.hierarchy', Option.getD_some] at hchain
    split at hchain
    next hfound =>
      cases hchain
      exact Hierarchy.chain_of_chainIn hfound
    next => cases hchain
  obtain ⟨htype, hb'⟩ := hb.internChain hc
  obtain ⟨-, c, hclass⟩ := internChain_classifies hb.classifies chain
  rw [htype] at hclass
  rw [heq] at htype hb' hclass
  refine ⟨(q.internChain chain).2, ?_, hb', c, hclass⟩
  have hpair : q.internChain chain = (type, (q.internChain chain).2) := Prod.ext htype rfl
  simp only [hancestors, hchain, map_ok]
  rw [← hpair]

theorem resolve_nodeUnion (hb : Below h enums q r) {kinds : List String} {type : ColumnType}
    (hcommon : r.commonIdentifierType kinds = .ok (type, r')) :
    ∃ q', q.commonIdentifierType kinds = .ok (type, q') ∧ Below h enums q' r' ∧
      ∃ c, q'.classify type = .ok c := by
  have hancestors : q.ancestors = r.ancestors := by
    funext kind
    unfold ancestors
    rw [hb.hierarchy, hb.hierarchy']
  unfold commonIdentifierType at hcommon ⊢
  obtain ⟨chains, hchains, hcommon⟩ := bind_eq_ok.mp hcommon
  rw [hancestors, hchains, ok_bind]
  cases hkind : nearestCommon? chains with
  | some kind =>
    rw [hkind] at hcommon
    exact hb.identifierType hcommon
  | none =>
    rw [hkind] at hcommon
    cases hcommon
    exact ⟨q, rfl, hb, .nodeId, classify_id q⟩

/-- A type that one registry resolves is the same one in a registry below it. -/
theorem resolve (hb : Below h enums q r) {semantic : SemanticType}
    (hentry : ∀ name ∈ semantic.entry?, name ∈ enums) {type : ColumnType}
    (hresolve : r.resolve semantic = .ok (type, r')) :
    ∃ q', q.resolve semantic = .ok (type, q') ∧ Below h enums q' r' ∧
      ∃ c, q'.classify type = .ok c ∧ (semantic.entry?.isSome → c = .symbol) := by
  cases semantic with
  | number | text | bool | anyNode | nodeOrKeyword _ =>
    cases hresolve
    exact ⟨q, rfl, hb, _, rfl, fun hsome => absurd hsome (by simp [SemanticType.entry?])⟩
  | node kind =>
    obtain ⟨q', hq, hb', c, hc⟩ := hb.identifierType hresolve
    exact ⟨q', hq, hb', c, hc, fun hsome => absurd hsome (by simp [SemanticType.entry?])⟩
  | nodeUnion kinds =>
    obtain ⟨q', hq, hb', c, hc⟩ := hb.resolve_nodeUnion hresolve
    exact ⟨q', hq, hb', c, hc, fun hsome => absurd hsome (by simp [SemanticType.entry?])⟩
  | enumeration name | record name | union name =>
    obtain ⟨rfl, rfl⟩ := resolve_entry rfl hresolve
    have hname := hentry name rfl
    refine ⟨q, ?_, hb, .symbol, hb.symbols name hname, fun _ => rfl⟩
    rw [Registry.resolve, hb.entries name hname]
    rfl

theorem listType (hb : Below h enums q r) {element type : ColumnType}
    (hlist : r.listType element = .ok (type, r')) :
    ∃ q', q.listType element = .ok (type, q') ∧ Below h enums q' r' := by
  have hright := hb.grows (.single (.list hlist))
  have hcell := hlist
  unfold Registry.listType at hcell
  obtain ⟨r₁, hdefine, heq⟩ := map_eq_ok.mp hcell
  cases heq
  have hself := get?_define_self hdefine
  obtain ⟨q', hq'⟩ : ∃ q', q.define (.record (element.name ++ "List")
      [("head", element), ("tail", .named (element.name ++ "List"))]) = .ok q' := by
    cases hfound : q.get? (element.name ++ "List") with
    | none => exact ⟨_, define_eq_ok.mpr (Or.inr ⟨hfound, rfl⟩)⟩
    | some d =>
      have hsame := (hright.get? hfound).symm.trans hself
      cases hsame
      exact ⟨q, define_eq_ok.mpr (Or.inl ⟨hfound, rfl⟩)⟩
  have hlist' : q.listType element = .ok (.named (element.name ++ "List"), q') := by
    unfold Registry.listType
    simp only [hq', map_ok]
  refine ⟨q', hlist', ?_⟩
  have hclass := listType_classifies hb.classifies hlist'
  rcases define_eq_ok.mp hq' with ⟨-, rfl⟩ | ⟨hfree, rfl⟩
  · exact hright
  · exact hright.push hfree hself hclass

/-- Before any kind is derived, the registry of a grammar is below itself. -/
theorem of_registerKinds {g : Grammar} {r₀ r₁ : Registry}
    (hr₀ : g.enums.foldlM registerEnum Registry.empty = .ok r₀)
    (hr₁ : r₀.registerKinds g = .ok r₁) : Below g.hierarchy g.enums r₁ r₁ := by
  have hh := hierarchy_of_registerKinds hr₁
  obtain ⟨-, hsame, hother⟩ := foldlM_registerEnum hr₀
  have hget (name : String) : r₁.get? name = r₀.get? name := by
    rw [(registerKinds_eq_ok hr₁).1]
    rfl
  have hholds := holdsEnums_of_registerKinds hr₀ hr₁
  refine ⟨hh, hh, fun hd => hd, fun name hname => (hget name).trans (hsame name hname), hholds,
    ?_, ?_⟩
  · intro kind base _ hfree d hd
    rw [get?_of_registerKinds hr₀ hr₁, if_neg hfree] at hd
    cases hd
  · intro name hsome
    by_cases hname : name ∈ g.enums
    · exact ⟨.symbol, hholds name hname⟩
    · rw [hget, hother name hname] at hsome
      obtain ⟨d, hd⟩ := Option.isSome_iff_exists.mp hsome
      have hmem := List.mem_of_find?_eq_some hd
      have hnamed : d.name = name := by simpa using List.find?_some hd
      rcases List.mem_cons.mp hmem with rfl | hmem
      · exact ⟨.nodeId, hnamed ▸ classify_id r₁⟩
      · rw [List.mem_singleton.mp hmem] at hnamed
        exact ⟨.bool, hnamed ▸ classify_bool r₁⟩

/-- What a type stands for does not depend on which of the definitions are there that it does not
need. -/
theorem classify_eq (hb : Below h enums q r) (hbuilt : q.Built) {type : ColumnType} {c : TypeClass}
    (hc : q.classify type = .ok c) : r.classify type = .ok c := by
  have hsub : q.defs ⊆ r.defs := by
    intro d hd
    exact List.mem_of_find?_eq_some (hb.get? (hbuilt.get?_of_mem hd))
  have hlength : q.defs.length ≤ r.defs.length :=
    (List.subperm_of_subset (List.Nodup.of_map _ hbuilt.nodup) hsub).length_le
  exact classify_eq_ok.mpr (classifyIn_mono hb.get? (by omega) (classify_eq_ok.mp hc))

theorem isListOf (hb : Below h enums q r) (hbuilt : q.Built) {type element : ColumnType}
    (hl : q.IsListOf type element) : r.IsListOf type element := by
  obtain ⟨hc, hrecord⟩ := hl
  exact ⟨hb.classify_eq hbuilt hc, record?_mono hb.get? hrecord⟩

end Below

end Registry

end TreeFacts
