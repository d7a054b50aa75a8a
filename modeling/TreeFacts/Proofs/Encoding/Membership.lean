import Mathlib.Logic.Relation
import Mathlib.Order.Bounds.Defs
import Mathlib.Order.PropInstances
import TreeFacts.Proofs.Encoding.Coverage
import TreeFacts.Proofs.Schema.Identifiers

namespace TreeFacts

/-- Which values are members of which kinds. -/
abbrev Membership := String → FactValue → Prop

/-- Facts are members of their kinds, and rules, as Horn clauses in one variable, hold. -/
structure Rule.Models (rules : List Rule) (facts m : Membership) : Prop where
  facts : facts ≤ m
  rules : ∀ rule ∈ rules, ∀ x, m rule.body x → m rule.head x

/-- A node is a member of its kind, of the proper bases of that, and of the root. -/
def Grammar.Member (g : Grammar) (visits : List Visit) : Membership := fun name x =>
  ∃ v ∈ visits, x = .number v.2.id ∧
    (name = v.2.kind ∨ Relation.TransGen g.HasBase v.2.kind name ∨ name = g.root)

namespace Schema

variable {g : Grammar} {skip : SkipSet} {e : Enrichment} {s : Schema} {visits : List Visit}
  {fs : FactSet}

/-- The members of concrete kinds that stand in the facts. -/
def members (s : Schema) (fs : FactSet) : Membership := fun name x =>
  ∃ k ∈ s.kinds, k.isAbstract = false ∧ k.name = name ∧
    ∃ tuples, fs.facts name = .ok tuples ∧ [x] ∈ tuples

theorem Covers.members_iff (hc : s.Covers visits fs) {name : String} {x : FactValue} :
    s.members fs name x ↔ ∃ v ∈ visits, x = .number v.2.id ∧ name = v.2.kind := by
  constructor
  · rintro ⟨k, hk, hconcrete, rfl, tuples, htuples, hx⟩
    rw [hc.members k hk hconcrete] at htuples
    cases htuples
    obtain ⟨n, hn, hrow⟩ := List.mem_map.mp hx
    obtain ⟨hkind, v, hv, rfl⟩ := mem_nodesOf.mp hn
    exact ⟨v, hv, (List.head_eq_of_cons_eq hrow).symm, hkind.symm⟩
  · rintro ⟨v, hv, rfl, rfl⟩
    obtain ⟨k, hk, hkind, hconcrete⟩ := hc.concrete v hv
    refine ⟨k, hk, hconcrete, hkind, _, hkind ▸ hc.members k hk hconcrete, ?_⟩
    exact List.mem_map.mpr ⟨v.2, mem_nodesOf.mpr ⟨rfl, v, hv, rfl⟩, rfl⟩

/-- What holds of members by the rules holds of them by the hierarchy. -/
theorem models_member (h : derive g skip e = .ok s) (hc : s.Covers visits fs) :
    Rule.Models s.rules (s.members fs) (g.Member visits) where
  facts name x hx := by
    obtain ⟨v, hv, hid, hkind⟩ := hc.members_iff.mp hx
    exact ⟨v, hv, hid, Or.inl hkind⟩
  rules rule hrule x hx := by
    obtain ⟨k, hk, hbody, hhead⟩ := (mem_rules h).mp hrule
    obtain ⟨kind, hkind, hname, hbase⟩ := exists_kind h hk
    have habove : g.HasBase rule.body k.base := ⟨kind, hkind, hname.trans hbody.symm, hbase⟩
    obtain ⟨v, hv, hid, hmember⟩ := hx
    refine ⟨v, hv, hid, ?_⟩
    rcases hhead with ⟨hhead, -⟩ | ⟨hhead, -⟩
    · rw [hhead]
      rcases hmember with hkind | hbelow | hroot
      · exact Or.inr (Or.inl (.single (hkind ▸ habove)))
      · exact Or.inr (Or.inl (hbelow.tail habove))
      · exact absurd (hname.trans (hbody.symm.trans hroot)) (name_ne_root h hkind)
    · exact Or.inr (Or.inr hhead)

/-- Where the rules hold, what is a member of a kind is one of its proper bases, but for the root,
to which only the rule of a concrete kind leads. -/
theorem holds_of_transGen (h : derive g skip e = .ok s) {facts m : Membership}
    (hm : Rule.Models s.rules facts m) {kind name : String} {x : FactValue} (hx : m kind x)
    (hbelow : Relation.TransGen g.HasBase kind name) (hroot : name ≠ g.root) : m name x := by
  have hstep {below above : String} (hx : m below x) (habove : g.HasBase below above)
      (hroot : above ≠ g.root) : m above x := by
    obtain ⟨kind, hkind, rfl, rfl⟩ := habove
    obtain ⟨k, hk, hname, hbase⟩ := exists_kind? h hkind
    have hrule : ⟨kind.base, kind.name⟩ ∈ s.rules :=
      (mem_rules h).mpr ⟨k, hk, ((kind?_eq_some h).mp hname).2.symm,
        Or.inl ⟨hbase.symm, hbase ▸ hroot⟩⟩
    exact hm.rules _ hrule x hx
  induction hbelow with
  | single habove => exact hstep hx habove hroot
  | tail _ habove ih =>
    obtain ⟨kind, hkind, rfl, rfl⟩ := habove
    exact hstep (ih (name_ne_root h hkind)) ⟨kind, hkind, rfl, rfl⟩ hroot

theorem member_le_of_models (h : derive g skip e = .ok s) (hc : s.Covers visits fs)
    {m : Membership} (hm : Rule.Models s.rules (s.members fs) m) : g.Member visits ≤ m := by
  rintro name x ⟨v, hv, hid, hmember⟩
  have hown : m v.2.kind x := hm.facts _ _ (hc.members_iff.mpr ⟨v, hv, hid, rfl⟩)
  by_cases hroot : name = g.root
  · obtain ⟨k, hk, hkind, hconcrete⟩ := hc.concrete v hv
    have hrule : ⟨g.root, v.2.kind⟩ ∈ s.rules :=
      (mem_rules h).mpr ⟨k, hk, hkind.symm, Or.inr ⟨rfl, hconcrete⟩⟩
    rw [hroot]
    exact hm.rules _ hrule x hown
  · rcases hmember with rfl | hbelow | hroot'
    · exact hown
    · exact holds_of_transGen h hm hown hbelow hroot
    · exact absurd hroot' hroot

/-- The rules of a schema compute the hierarchy of its kinds. From the facts of an encoding they
lead to each kind of a node, each base of that and the root, and to nothing else. -/
theorem encodeAll_members_isLeast (h : derive g skip Enrichment.none = .ok s) {roots : List Node}
    {warnings : List Warning} (hfs : s.encodeAll Enrichment.none roots = .ok (fs, warnings)) :
    IsLeast {m | Rule.Models s.rules (s.members fs) m} (g.Member (visitsOfRoots roots)) := by
  have hc := covers_of_encodeAll h hfs
  exact ⟨models_member h hc, fun m hm => member_le_of_models h hc hm⟩

theorem encodeAll_members_arithmetic :
    derive arithmetic .empty .none = .ok arithmeticSchema ∧
      arithmeticSchema.encodeAll .none arithmeticForest = .ok (arithmeticFacts, []) ∧
      IsLeast {m | Rule.Models arithmeticSchema.rules (arithmeticSchema.members arithmeticFacts) m}
        (arithmetic.Member (visitsOfRoots arithmeticForest)) := by
  refine ⟨derive_arithmetic, encodeAll_arithmetic, ?_⟩
  exact encodeAll_members_isLeast derive_arithmetic encodeAll_arithmetic

end Schema

end TreeFacts
