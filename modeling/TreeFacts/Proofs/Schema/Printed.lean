import TreeFacts.Proofs.Program.Interface
import TreeFacts.Proofs.Schema.Built
import TreeFacts.Proofs.Schema.Identifiers

namespace TreeFacts

open Program

namespace Rule

/-- A rule up to the point that ends it. -/
def bodyText (rule : Rule) : List Char := (rule.head ++ "(id) :- " ++ rule.body ++ "(id)").toList

theorem render_toList (rule : Rule) : rule.render.toList = rule.bodyText ++ ['.'] := by
  simp [render, bodyText]

theorem bodyText_plain {rule : Rule} (hhead : IsName rule.head) (hbody : IsName rule.body) :
    (Piece.filler rule.bodyText).Plain := by
  obtain ⟨c, cs, hfirst, hc, -⟩ := hhead.exists_cons
  have hblank := isBlank_of_isNameStart hc
  have hbar : c ≠ '|' := by
    rintro rfl
    exact absurd hc (by decide)
  refine ⟨by simp [bodyText, hfirst], by simp [bodyText, hhead.inner, hbody.inner], ?_⟩
  simp [bodyText, hfirst, skipBlanks_of_not_isBlank hblank, hbar]

end Rule

namespace Schema

variable {g : Grammar} {skip : SkipSet} {e : Enrichment} {s : Schema}

/-- All names of the schema can stand in a program, and no union is without branches. -/
structure Plain (s : Schema) : Prop where
  types : ∀ d ∈ s.registry.defs, d.Plain
  relations : ∀ r ∈ s.relations, r.Plain

instance (s : Schema) : Decidable s.Plain :=
  decidable_of_iff ((∀ d ∈ s.registry.defs, d.Plain) ∧ ∀ r ∈ s.relations, r.Plain)
    ⟨fun h => ⟨h.1, h.2⟩, fun h => ⟨h.1, h.2⟩⟩

def typePieces (s : Schema) : List Piece := s.registry.defs.map .type ++ [.filler ['\n']]

def declarationPieces (s : Schema) : List Piece := s.relations.map .declaration ++ [.filler ['\n']]

def rulePieces (s : Schema) : List Piece :=
  s.rules.flatMap fun rule => [.filler rule.bodyText, .stop]

/-- What the text of a schema is made of where its headings are left out. -/
def pieces (s : Schema) : List Piece :=
  .filler ['\n'] :: s.typePieces ++ .filler ['\n'] :: s.declarationPieces ++
    .filler ['\n'] :: s.rulePieces

theorem rules_isName (h : derive g skip e = .ok s) (hp : s.Plain) {rule : Rule}
    (hrule : rule ∈ s.rules) : IsName rule.head ∧ IsName rule.body := by
  have hkind {k : KindSchema} (hk : k ∈ s.kinds) : IsName k.name :=
    (hp.relations _ (membership_mem_relations h hk)).1
  have hroot : IsName g.root := (hp.relations _ (root_mem_relations h)).1
  obtain ⟨k, hk, hbody, hhead⟩ := (mem_rules h).mp hrule
  rw [hbody]
  refine ⟨?_, hkind hk⟩
  rcases hhead with ⟨hhead, -⟩ | ⟨hhead, -⟩
  · rw [hhead]
    rcases base_cases h hk with hbase | ⟨above, habove, hname⟩
    · rw [hbase]
      exact hroot
    · rw [← hname]
      exact hkind habove
  · rw [hhead]
    exact hroot

theorem lineBreak_plain : (Piece.filler ['\n']).Plain := by
  have hblank : Text.isBlank '\n' = true := by decide
  simp [Piece.Plain, skipBlanks, hblank]

theorem map_plain {α : Type} {piece : α → Piece} {as : List α} (h : ∀ a ∈ as, (piece a).Plain) :
    ∀ p ∈ as.map piece ++ [.filler ['\n']], p.Plain := by
  intro p hmem
  rcases List.mem_append.mp hmem with hmem | hmem
  · obtain ⟨a, ha, rfl⟩ := List.mem_map.mp hmem
    exact h a ha
  · rw [List.mem_singleton.mp hmem]
    exact lineBreak_plain

theorem typePieces_plain (hp : s.Plain) : ∀ p ∈ s.typePieces, p.Plain := map_plain hp.types

theorem declarationPieces_plain (hp : s.Plain) : ∀ p ∈ s.declarationPieces, p.Plain :=
  map_plain hp.relations

theorem rulePieces_plain (h : derive g skip e = .ok s) (hp : s.Plain) :
    ∀ p ∈ s.rulePieces, p.Plain := by
  intro p hmem
  obtain ⟨rule, hrule, hmem⟩ := List.mem_flatMap.mp hmem
  simp only [List.mem_cons, List.not_mem_nil, or_false] at hmem
  rcases hmem with rfl | rfl
  · obtain ⟨hhead, hbody⟩ := rules_isName h hp hrule
    exact Rule.bodyText_plain hhead hbody
  · exact trivial

theorem pieces_plain (h : derive g skip e = .ok s) (hp : s.Plain) : ∀ p ∈ s.pieces, p.Plain := by
  intro p hmem
  simp only [pieces, List.cons_append, List.mem_cons, List.mem_append] at hmem
  rcases hmem with rfl | (hmem | rfl | hmem) | rfl | hmem
  · exact lineBreak_plain
  · exact typePieces_plain hp p hmem
  · exact lineBreak_plain
  · exact declarationPieces_plain hp p hmem
  · exact lineBreak_plain
  · exact rulePieces_plain h hp p hmem

theorem toList_render (s : Schema) : s.render.toList =
    '/' :: '/' :: (" Types".toList ++ '\n' :: (s.typePieces.flatMap Piece.text ++
      '/' :: '/' :: (" Relations".toList ++ '\n' :: (s.declarationPieces.flatMap Piece.text ++
        '/' :: '/' :: (" Membership".toList ++ '\n' :: (s.rulePieces.flatMap Piece.text ++ [])))))) := by
  have htypes : s.typePieces.flatMap Piece.text = s.registry.render.toList ++ ['\n'] := by
    simp [typePieces, Registry.render, String.toList_join, List.flatMap_map, Piece.text]
  have hdeclarations : s.declarationPieces.flatMap Piece.text =
      (String.join (s.relations.map fun r => r.render ++ "\n")).toList ++ ['\n'] := by
    simp [declarationPieces, String.toList_join, List.flatMap_map, Piece.text]
  have hrules : s.rulePieces.flatMap Piece.text =
      (String.join (s.rules.map fun rule => rule.render ++ "\n")).toList := by
    simp [rulePieces, String.toList_join, List.flatMap_map, List.flatMap_assoc, Piece.text,
      Rule.render_toList]
  rw [htypes, hdeclarations, hrules]
  simp [render]

theorem removeComments_render (h : derive g skip e = .ok s) (hp : s.Plain) :
    removeComments s.render.toList = s.pieces.flatMap Piece.text := by
  rw [toList_render, removeComments_section (by decide) (typePieces_plain hp),
    removeComments_section (by decide) (declarationPieces_plain hp),
    removeComments_section (by decide) (rulePieces_plain h hp)]
  simp [pieces, removeComments]

theorem filterMap_rulePieces {α : Type} {read : Piece → Option α}
    (hfiller : ∀ cs, read (.filler cs) = none) (hstop : read .stop = none) (s : Schema) :
    s.rulePieces.filterMap read = [] := by
  refine List.filterMap_eq_nil_iff.mpr fun p hmem => ?_
  obtain ⟨rule, -, hmem⟩ := List.mem_flatMap.mp hmem
  simp only [List.mem_cons, List.not_mem_nil, or_false] at hmem
  rcases hmem with rfl | rfl
  · exact hfiller rule.bodyText
  · exact hstop

theorem filterMap_pieces (s : Schema) :
    s.pieces.filterMap Piece.type? = s.registry.defs ∧
      s.pieces.filterMap Piece.declaration? = s.relations := by
  have htypes : s.rulePieces.filterMap Piece.type? = [] :=
    filterMap_rulePieces (fun _ => rfl) rfl s
  have hdeclarations : s.rulePieces.filterMap Piece.declaration? = [] :=
    filterMap_rulePieces (fun _ => rfl) rfl s
  constructor
  · simp [pieces, typePieces, declarationPieces, htypes, List.filterMap_cons, List.filterMap_map,
      Function.comp_def, Piece.type?]
  · simp [pieces, typePieces, declarationPieces, hdeclarations, List.filterMap_cons,
      List.filterMap_map, Function.comp_def, Piece.declaration?]

/-- A program reads back from a schema's text what the schema declares, each type and relation in
its place and no outputs. Its types are known to the schema's registry. -/
theorem interface_render (he : e.Builds) (h : derive g skip e = .ok s) (hp : s.Plain) :
    Interface.parse s.render = .ok ⟨s.registry.defs, s.inputs ++ s.markers, []⟩ ∧
      Interface.register ⟨s.registry.defs, s.inputs ++ s.markers, []⟩ s.registry =
        .ok s.registry := by
  have hread := parse_pieces (pieces_plain h hp) (removeComments_render h hp)
  obtain ⟨htypes, hdeclarations⟩ := filterMap_pieces s
  rw [htypes, hdeclarations] at hread
  exact ⟨hread, (derive_built he h).defineAll_of_subset fun _ hd => hd⟩

/-- Places of nodes as a union with a record in it, which no kind of a grammar asks for. -/
def placeTypes : List TypeDef :=
  [.record "Position" [("line", .number), ("column", .number)],
    .union "Place" [⟨"At", [("position", .named "Position"), ("file", .symbol)]⟩, ⟨"Nowhere", []⟩]]

def places : Enrichment where
  declare r := do return ([⟨"place", [("id", .id), ("place", .named "Place")]⟩],
    ← r.defineAll placeTypes)
  ofNode n := [("place", [.number n.id, .branch "Nowhere" []])]
  once := []

theorem places_builds : places.Builds := by
  intro r r' relations hb h
  obtain ⟨r₁, hdefined, heq⟩ := bind_eq_ok.mp h
  cases heq
  exact hb.defineAll hdefined

def placesSchema : Schema :=
  (derive (leaves ["Color"]) .empty places).toOption.getD ⟨"", .empty, [], [], [], []⟩

theorem interface_render_places :
    derive (leaves ["Color"]) .empty places = .ok placesSchema ∧ placesSchema.Plain ∧
      Interface.parse placesSchema.render =
        .ok ⟨placesSchema.registry.defs, placesSchema.inputs ++ placesSchema.markers, []⟩ ∧
      Interface.register ⟨placesSchema.registry.defs, placesSchema.inputs ++ placesSchema.markers, []⟩
        placesSchema.registry = .ok placesSchema.registry := by
  have h : derive (leaves ["Color"]) .empty places = .ok placesSchema := by decide +kernel
  have hplain : placesSchema.Plain := by decide +kernel
  exact ⟨h, hplain, interface_render places_builds h hplain⟩

end Schema

end TreeFacts
