import TreeFacts.Proofs.Ends
import TreeFacts.Proofs.Schema.Built
import TreeFacts.Proofs.Types.Hierarchy
import TreeFacts.Types.Operation

namespace TreeFacts

namespace Registry

variable {r : Registry} {name : String}

/-- The positions that definitions have when they are made one after the other. -/
def positions (r : Registry) : Entries Nat :=
  Entries.ofList (r.defs.zipIdx.map fun (d, i) => (d.name, i))

def stored (r : Registry) : Store := ⟨r, r.positions⟩

theorem stored_push (r : Registry) (d : TypeDef) : r.stored.push d = (r.push d).stored := by
  have hpairs : (r.push d).defs.zipIdx.map (fun (d, i) => (d.name, i)) =
      r.defs.zipIdx.map (fun (d, i) => (d.name, i)) ++ [(d.name, r.defs.length)] := by
    rw [push, List.zipIdx_append, List.map_append, List.zipIdx_singleton, Nat.zero_add]
    rfl
  have hpositions : (r.push d).positions = Entries.insert d.name r.defs.length r.positions := by
    rw [positions, hpairs, Entries.ofList, List.foldl_append]
    rfl
  rw [stored, stored, hpositions]
  rfl

theorem lookup_positions (hn : (r.defs.map (·.name)).Nodup) {i : Nat} :
    r.positions.lookup name = some i ↔ (r.defs[i]?).map (·.name) = some name := by
  have hkeys : (r.defs.zipIdx.map fun (d, i) => (d.name, i)).map (·.1) = r.defs.map (·.name) := by
    have hfst : r.defs.zipIdx.map Prod.fst = r.defs := List.zipIdx_map_fst 0 r.defs
    calc (r.defs.zipIdx.map fun (d, i) => (d.name, i)).map (·.1)
        = (r.defs.zipIdx.map Prod.fst).map (·.name) := by rw [List.map_map, List.map_map]; rfl
      _ = r.defs.map (·.name) := by rw [hfst]
  rw [positions, Entries.lookup_ofList (hkeys ▸ hn), Option.map_eq_some_iff]
  constructor
  · intro hlookup
    obtain ⟨⟨d, j⟩, hd, hpair⟩ := List.mem_map.mp (Entries.mem_of_lookup hlookup)
    cases hpair
    exact ⟨d, List.mem_zipIdx_iff_getElem?.mp hd, rfl⟩
  · rintro ⟨d, hd, rfl⟩
    refine Entries.lookup_of_mem (hkeys ▸ hn) (List.mem_map.mpr ⟨(d, i), ?_, rfl⟩)
    exact List.mem_zipIdx_iff_getElem?.mpr hd

/-- What stands at the position entered under a name is the definition of that name. -/
theorem get?_stored (hn : (r.defs.map (·.name)).Nodup) : r.stored.get? name = r.get? name := by
  unfold Store.get?
  show (r.positions.lookup name).bind (r.defs[·]?) = r.get? name
  cases hlookup : r.positions.lookup name with
  | some i =>
    obtain ⟨d, hd, hname⟩ := Option.map_eq_some_iff.mp ((lookup_positions hn).mp hlookup)
    have hget : r.get? name = some d :=
      (find?_name_eq_some hn).mpr ⟨List.mem_of_getElem? hd, hname⟩
    rw [Option.bind_some, hd, hget]
  | none =>
    rw [Option.bind_none]
    cases hget : r.get? name with
    | none => rfl
    | some d =>
      obtain ⟨hd, hname⟩ := (find?_name_eq_some hn).mp hget
      obtain ⟨i, hi⟩ := List.mem_iff_getElem?.mp hd
      have hentered : r.positions.lookup name = some i :=
        (lookup_positions hn).mpr (by rw [hi, Option.map_some, hname])
      rw [hlookup] at hentered
      cases hentered

/-- What the operations keep of a registry: definitions are made under free names, and the bases of
the kinds lead to the root. -/
structure Kept (r : Registry) : Prop where
  built : r.Built
  grounded : ∀ h, r.hierarchy = some h → h.Grounded

theorem kept_empty : empty.Kept where
  built := .empty
  grounded h hh := by cases hh

theorem Kept.hierarchy_grounded (hk : r.Kept) : (r.hierarchy.getD ⟨"", []⟩).Grounded := by
  cases hh : r.hierarchy with
  | none => exact Hierarchy.grounded_nil ""
  | some h => exact hk.grounded h hh

end Registry

namespace InPlace

variable {α β : Type} {r r' : Registry} {s s' : Store} {h : Hierarchy} {kind : String}

theorem bind_of_ok {x : InPlace α} {a : α} (hx : x s = some (.ok a, s')) (f : α → InPlace β) :
    (x >>= f) s = f a s' := by
  show (x s).bind _ = _
  rw [hx]
  rfl

theorem bind_of_error {x : InPlace α} {e : Error} (hx : x s = some (.error e, s'))
    (f : α → InPlace β) : (x >>= f) s = some (.error e, s') := by
  show (x s).bind _ = _
  rw [hx]
  rfl

theorem get_bind (f : Store → InPlace β) (s : Store) : (get >>= f) s = f s s := rfl

theorem mapM_apply {x : α → InPlace β} {f : α → Except Error β}
    (hx : ∀ a, x a s = some (f a, s)) (as : List α) : as.mapM x s = some (as.mapM f, s) := by
  induction as with
  | nil => rfl
  | cons a as ih =>
    have ha := hx a
    rw [List.mapM_cons, List.mapM_cons]
    cases hf : f a with
    | error e =>
      rw [hf] at ha
      exact bind_of_error ha _
    | ok b =>
      rw [hf] at ha
      rw [bind_of_ok ha, ok_bind]
      cases hrest : as.mapM f with
      | error e =>
        rw [hrest] at ih
        exact bind_of_error ih _
      | ok bs =>
        rw [hrest] at ih
        exact bind_of_ok ih _

theorem define_apply (d : TypeDef) (s : Store) :
    define d s = match s.get? d.name with
      | none => some (.ok ⟨⟩, s.push d)
      | some existing => if existing = d then some (.ok ⟨⟩, s)
          else some (.error (.invalidGrammar (.typeDefinedTwice d.name)), s) := by
  unfold define
  rw [get_bind]
  cases s.get? d.name with
  | none => rfl
  | some existing =>
    simp only
    split
    · rfl
    · rfl

theorem follow_succ (h : Hierarchy) (kind : String) (steps : Nat) (seen : List String)
    (current : String) (s : Store) : follow h kind (steps + 1) seen current s =
      if current = h.root then some (.ok ⟨⟩, s)
      else if current ∈ seen then some (.error (.invalidGrammar (.cyclicBases kind)), s)
      else match h.bases.lookup current with
        | none => some (.error (.invalidGrammar (.undeclaredBase kind current)), s)
        | some base => follow h kind steps (current :: seen) base s := by
  rw [follow]
  split
  · rfl
  · split
    · rfl
    · cases h.bases.lookup current with
      | none => rfl
      | some base => rfl

theorem climb_succ (kind : String) (steps : Nat) (found : List String) (current : String)
    (s : Store) : climb kind (steps + 1) found current s =
      if current = (s.hierarchy.getD ⟨"", []⟩).root then some (.ok found, s)
      else match (s.hierarchy.getD ⟨"", []⟩).bases.lookup current with
        | none => some (.error (.unknownKindType kind), s)
        | some base => climb kind steps (found ++ [base]) base s := by
  rw [climb, get_bind]
  split
  · rfl
  · cases (s.hierarchy.getD ⟨"", []⟩).bases.lookup current with
    | none => rfl
    | some base => rfl

theorem identifierType_root (hroot : s.hierarchy.map (·.root) = some kind) (steps : Nat) :
    identifierType (steps + 1) kind s = some (.ok .id, s) := by
  rw [identifierType, get_bind]
  simp only [if_pos hroot]
  rfl

theorem identifierType_undeclared (hroot : s.hierarchy.map (·.root) ≠ some kind)
    (hbase : s.hierarchy.bind (·.bases.lookup kind) = none) (steps : Nat) :
    identifierType (steps + 1) kind s = some (.error (.unknownKindType kind), s) := by
  rw [identifierType, get_bind]
  simp only [if_neg hroot, hbase]
  rfl

theorem identifierType_base (hroot : s.hierarchy.map (·.root) ≠ some kind) {base : String}
    (hbase : s.hierarchy.bind (·.bases.lookup kind) = some base) {steps : Nat} {above : ColumnType}
    (habove : identifierType steps base s = some (.ok above, s')) :
    identifierType (steps + 1) kind s = some (.ok (.named (kind ++ "Id")),
      if (s'.get? (kind ++ "Id")).isSome then s' else s'.push (.subtype (kind ++ "Id") above)) := by
  rw [identifierType, get_bind]
  simp only [if_neg hroot, hbase]
  rw [bind_of_ok habove]
  rfl

/-- A search that remembers the kinds it has passed finds what one of limited length does. -/
theorem follow_eq {seen : List String} {current : String} {fuel steps : Nat} (hn : seen.Nodup)
    (hkeys : seen ⊆ h.bases.map (·.1)) (hpath : ∀ k ∈ seen, Relation.TransGen h.Link k current)
    (hfuel : fuel + seen.length = h.bases.length + 1) (hsteps : fuel ≤ steps) (s : Store) :
    follow h kind steps seen current s =
      some ((Hierarchy.verdict kind (h.chainIn fuel current)).mapError .invalidGrammar, s) := by
  induction fuel generalizing seen current steps with
  | zero =>
    -- All kinds have been passed, and one more cannot be.
    have hlength := (List.subperm_of_subset hn hkeys).length_le
    rw [List.length_map] at hlength
    omega
  | succ fuel ih =>
    obtain ⟨steps, rfl⟩ : ∃ n, steps = n + 1 := ⟨steps - 1, by omega⟩
    rw [follow_succ]
    by_cases hroot : current = h.root
    · rw [if_pos hroot, Hierarchy.chainIn, if_pos hroot]
      rfl
    rw [if_neg hroot]
    by_cases hseen : current ∈ seen
    · rw [if_pos hseen, Hierarchy.chainIn_of_circle (hpath current hseen)]
      rfl
    rw [if_neg hseen, Hierarchy.chainIn, if_neg hroot]
    cases hbase : h.bases.lookup current with
    | none => rfl
    | some base =>
      have hlink : h.Link current base := ⟨hroot, hbase⟩
      have hkey : current ∈ h.bases.map (·.1) :=
        List.mem_map.mpr ⟨(current, base), Entries.mem_of_lookup hbase, rfl⟩
      simp only
      rw [Hierarchy.verdict_map]
      refine ih (List.nodup_cons.mpr ⟨hseen, hn⟩) (List.cons_subset.mpr ⟨hkey, hkeys⟩) ?_ ?_
        (by omega)
      · intro k hk
        rcases List.mem_cons.mp hk with rfl | hk
        · exact .single hlink
        · exact (hpath k hk).tail hlink
      · rw [List.length_cons]
        omega

theorem forM_follow {steps : Nat} (hsteps : h.bases.length + 1 ≤ steps) (kinds : List NodeKind)
    (s : Store) : (kinds.forM fun kind => follow h kind.name steps [] kind.name) s =
      some ((kinds.forM h.check).mapError .invalidGrammar, s) := by
  induction kinds with
  | nil => rfl
  | cons kind kinds ih =>
    have hfirst : follow h kind.name steps [] kind.name s =
        some ((h.check kind).mapError .invalidGrammar, s) := by
      rw [Hierarchy.check_eq_verdict]
      exact follow_eq List.nodup_nil (List.nil_subset _) (fun _ hk => absurd hk List.not_mem_nil)
        rfl hsteps s
    show (follow h kind.name steps [] kind.name >>= fun _ => _) s =
      some ((h.check kind >>= fun _ => kinds.forM h.check).mapError .invalidGrammar, s)
    cases hcheck : h.check kind with
    | error fault =>
      rw [hcheck] at hfirst
      exact bind_of_error hfirst _
    | ok _ =>
      rw [hcheck] at hfirst
      rw [bind_of_ok hfirst]
      exact ih

theorem registerKinds_ends (g : Grammar) (s : Store) :
    Ends (registerKinds · g s) (match Hierarchy.ofGrammar g with
      | .ok h => (.ok ⟨⟩, { s with hierarchy := some h })
      | .error fault => (.error (.invalidGrammar fault), s)) := by
  refine ⟨g.kinds.length + 1, fun steps hsteps => ?_⟩
  unfold Hierarchy.ofGrammar
  show registerKinds steps g s = _
  unfold registerKinds
  cases hcollect : Hierarchy.collect g.root [] g.kinds with
  | error fault => rfl
  | ok bases =>
    have hlength : bases.length + 1 ≤ steps := by
      rw [Hierarchy.collect_eq_ok hcollect, List.nil_append, List.length_map]
      exact hsteps
    have hfollow := forM_follow (h := ⟨g.root, bases⟩) hlength g.kinds s
    simp only [ok_bind]
    cases hcheck : g.kinds.forM (Hierarchy.check ⟨g.root, bases⟩) with
    | error fault =>
      rw [hcheck] at hfollow
      exact bind_of_error hfollow _
    | ok _ =>
      rw [hcheck] at hfollow
      exact bind_of_ok hfollow _

theorem climb_of_chain {current : String} {chain found : List String} {steps : Nat}
    (hc : (s.hierarchy.getD ⟨"", []⟩).Chain current chain) (hsteps : chain.length ≤ steps) :
    climb kind steps found current s = some (.ok (found ++ chain.tail), s) := by
  generalize hh : s.hierarchy.getD ⟨"", []⟩ = h at hc
  induction hc generalizing found steps with
  | root =>
    obtain ⟨steps, rfl⟩ := Nat.exists_eq_add_of_le' hsteps
    rw [List.length_singleton, climb_succ, hh, if_pos rfl, List.tail_cons, List.append_nil]
  | base hroot hbase hrest ih =>
    obtain ⟨rest, rfl⟩ := hrest.exists_cons
    rw [List.length_cons] at hsteps
    obtain ⟨steps, rfl⟩ : ∃ n, steps = n + 1 := ⟨steps - 1, by omega⟩
    rw [climb_succ, hh, if_neg hroot, hbase]
    simp only
    rw [ih (by omega), List.append_assoc]
    rfl

/-- What an operation on a registry says, with the store that it leaves. After an error the store is
as it was. -/
def landing (r : Registry) : Except Error (α × Registry) → Except Error α × Store
  | .ok (a, r') => (.ok a, r'.stored)
  | .error e => (.error e, r.stored)

/-- On the store of a registry, an operation ends with the given result. -/
def Answers (x : Nat → InPlace α) (r : Registry) (result : Except Error (α × Registry)) : Prop :=
  Ends (x · r.stored) (landing r result)

theorem Answers.exists_store {x : Nat → InPlace α} {result : Except Error (α × Registry)}
    (hx : Answers x r result) : ∃ s', Ends (x · r.stored) (result.map (·.1), s') := by
  cases result with
  | ok p => exact ⟨_, hx⟩
  | error e => exact ⟨_, hx⟩

theorem Answers.map {x : Nat → InPlace α} {result : Except Error (α × Registry)}
    (hx : Answers x r result) (f : α → β) :
    Answers (fun steps => f <$> x steps) r (result.map (Prod.map f id)) := by
  obtain ⟨bound, hbound⟩ := hx
  refine ⟨bound, fun steps hsteps => ?_⟩
  have hstep := hbound steps hsteps
  show (x steps >>= fun a => pure (f a)) r.stored = _
  cases result with
  | ok p => exact bind_of_ok hstep _
  | error e => exact bind_of_error hstep _

theorem Answers.of_unit {x : Nat → InPlace PUnit} {result : Except Error Registry}
    (hx : Answers x r (result.map (⟨⟩, ·))) (b : β) :
    Answers (fun steps => x steps >>= fun _ => pure b) r (result.map (b, ·)) := by
  obtain ⟨bound, hbound⟩ := hx
  refine ⟨bound, fun steps hsteps => ?_⟩
  have hstep := hbound steps hsteps
  cases result with
  | ok r' => exact bind_of_ok hstep _
  | error e => exact bind_of_error hstep _

theorem Answers.of_read {x : Nat → InPlace α} {a : α}
    (hx : Ends (x · r.stored) (.ok a, r.stored)) {f : Nat → α → InPlace β}
    {result : Except Error (β × Registry)} (hf : Answers (f · a) r result) :
    Answers (fun steps => x steps >>= f steps) r result := by
  obtain ⟨m, hm⟩ := hx
  obtain ⟨n, hn⟩ := hf
  refine ⟨max m n, fun steps hsteps => ?_⟩
  exact (bind_of_ok (hm steps (by omega)) (f steps)).trans (hn steps (by omega))

theorem define_answers (hb : r.Built) (d : TypeDef) :
    Answers (fun _ => define d) r ((r.define d).map (⟨⟩, ·)) := by
  have hdefine := define_apply d r.stored
  rw [Registry.get?_stored hb.nodup] at hdefine
  refine ends_const ?_
  unfold Registry.define
  cases hfound : r.get? d.name with
  | none =>
    rw [hfound, Registry.stored_push] at hdefine
    exact hdefine
  | some existing =>
    rw [hfound] at hdefine
    by_cases hsame : existing = d
    · simp only [if_pos hsame] at hdefine ⊢
      exact hdefine
    · simp only [if_neg hsame] at hdefine ⊢
      exact hdefine

theorem registerKinds_answers (r : Registry) (g : Grammar) :
    Answers (registerKinds · g) r ((r.registerKinds g).map (⟨⟩, ·)) := by
  have hkinds := registerKinds_ends g r.stored
  unfold Registry.registerKinds
  cases hg : Hierarchy.ofGrammar g with
  | ok h =>
    rw [hg] at hkinds
    exact hkinds
  | error fault =>
    rw [hg] at hkinds
    exact hkinds

theorem ancestors_apply (hk : r.Kept) {steps : Nat}
    (hsteps : (r.hierarchy.getD ⟨"", []⟩).bases.length + 1 ≤ steps) (kind : String) :
    ancestors steps kind r.stored = some (r.ancestors kind, r.stored) := by
  unfold ancestors Registry.ancestors
  rcases hk.hierarchy_grounded.chain_or_undeclared kind with ⟨chain, hc⟩ | ⟨hroot, hbase⟩
  · have hlength := hc.length_le
    obtain ⟨rest, rfl⟩ := hc.exists_cons
    rw [Hierarchy.chain_eq_ok_iff.mpr hc]
    exact climb_of_chain (s := r.stored) hc (by omega)
  · obtain ⟨steps, rfl⟩ : ∃ n, steps = n + 1 := ⟨steps - 1, by omega⟩
    rw [Hierarchy.chain_eq_undeclared hroot hbase, climb_succ]
    show (if kind = (r.hierarchy.getD ⟨"", []⟩).root then _ else _) = _
    rw [if_neg hroot]
    show (match (r.hierarchy.getD ⟨"", []⟩).bases.lookup kind with | none => _ | some base => _) = _
    rw [hbase]

theorem ancestors_ends (hk : r.Kept) (kind : String) :
    Ends (ancestors · kind r.stored) (r.ancestors kind, r.stored) :=
  ⟨_, fun _ hsteps => ancestors_apply hk hsteps kind⟩

theorem identifierType_of_chain (hb : r.Built) (hh : r.hierarchy = some h) {chain : List String}
    (hc : h.Chain kind chain) {steps : Nat} (hsteps : chain.length ≤ steps) :
    identifierType steps kind r.stored =
      some (.ok (r.internChain chain).1, (r.internChain chain).2.stored) := by
  have hstored : r.stored.hierarchy = some h := hh
  induction hc generalizing steps with
  | root =>
    obtain ⟨steps, rfl⟩ := Nat.exists_eq_add_of_le' hsteps
    exact identifierType_root (by rw [hstored]; rfl) steps
  | @base kind base above hroot hbase hrest ih =>
    obtain ⟨rest, rfl⟩ := hrest.exists_cons
    rw [List.length_cons] at hsteps
    obtain ⟨steps, rfl⟩ : ∃ n, steps = n + 1 := ⟨steps - 1, by omega⟩
    have hne : r.stored.hierarchy.map (·.root) ≠ some kind := by
      rw [hstored]
      exact fun heq => hroot (Option.some.inj heq).symm
    have hlookup : r.stored.hierarchy.bind (·.bases.lookup kind) = some base := by
      rw [hstored]
      exact hbase
    have hbuilt := hb.internChain (base :: rest)
    rw [identifierType_base hne hlookup (ih (by omega)), Registry.get?_stored hbuilt.nodup,
      Registry.stored_push, Registry.internChain]
    simp only
    split
    · rfl
    · rfl

theorem identifierType_answers (hk : r.Kept) (kind : String) :
    Answers (identifierType · kind) r (r.identifierType kind) := by
  unfold Registry.identifierType
  cases hh : r.hierarchy with
  | none =>
    have hstored : r.stored.hierarchy = none := hh
    refine ⟨1, fun steps hsteps => ?_⟩
    obtain ⟨steps, rfl⟩ := Nat.exists_eq_add_of_le' hsteps
    exact identifierType_undeclared (by rw [hstored]; exact fun heq => by cases heq)
      (by rw [hstored]; rfl) steps
  | some h =>
    have hstored : r.stored.hierarchy = some h := hh
    unfold Registry.ancestors
    rw [hh, Option.getD_some]
    rcases (hk.grounded h hh).chain_or_undeclared kind with ⟨chain, hc⟩ | ⟨hroot, hbase⟩
    · rw [Hierarchy.chain_eq_ok_iff.mpr hc]
      exact ⟨_, fun _ hsteps => identifierType_of_chain hk.built hh hc hsteps⟩
    · rw [Hierarchy.chain_eq_undeclared hroot hbase]
      refine ⟨1, fun steps hsteps => ?_⟩
      obtain ⟨steps, rfl⟩ := Nat.exists_eq_add_of_le' hsteps
      refine identifierType_undeclared ?_ (by rw [hstored]; exact hbase) steps
      rw [hstored]
      exact fun heq => hroot (Option.some.inj heq).symm

theorem commonIdentifierType_answers (hk : r.Kept) (kinds : List String) :
    Answers (commonIdentifierType · kinds) r (r.commonIdentifierType kinds) := by
  have hchains : Ends (fun steps => kinds.mapM (ancestors steps) r.stored)
      (kinds.mapM r.ancestors, r.stored) :=
    ⟨_, fun _ hsteps => mapM_apply (ancestors_apply hk hsteps) kinds⟩
  unfold commonIdentifierType Registry.commonIdentifierType
  cases hfound : kinds.mapM r.ancestors with
  | error e =>
    rw [hfound] at hchains
    obtain ⟨bound, hbound⟩ := hchains
    exact ⟨bound, fun steps hsteps => bind_of_error (hbound steps hsteps) _⟩
  | ok chains =>
    rw [hfound] at hchains
    rw [ok_bind]
    refine Answers.of_read hchains ?_
    cases Registry.nearestCommon? chains with
    | some kind => exact identifierType_answers hk kind
    | none => exact ends_const rfl

theorem namedType_answers (hb : r.Built) (name : String) :
    Answers (fun _ => namedType name) r (if (r.get? name).isSome then .ok (.named name, r)
      else .error (.unknownType name)) := by
  have hnamed : namedType name r.stored =
      (if (r.stored.get? name).isSome then some (.ok (.named name), r.stored)
        else some (.error (.unknownType name), r.stored)) := by
    unfold namedType
    rw [get_bind]
    split
    · rfl
    · rfl
  rw [Registry.get?_stored hb.nodup] at hnamed
  refine ends_const (hnamed.trans ?_)
  split
  · rfl
  · rfl

theorem resolve_answers (hk : r.Kept) (type : SemanticType) :
    Answers (resolve · type) r (r.resolve type) := by
  cases type with
  | number | text | bool | anyNode | nodeOrKeyword _ => exact ends_const rfl
  | node kind => exact identifierType_answers hk kind
  | nodeUnion kinds => exact commonIdentifierType_answers hk kinds
  | enumeration name | record name | union name => exact namedType_answers hk.built name

theorem listType_answers (hb : r.Built) (element : ColumnType) :
    Answers (fun _ => listType element) r (r.listType element) :=
  (define_answers hb _).of_unit _

end InPlace

namespace Operation

open InPlace (Answers)

variable {r : Registry}

theorem perform_answers (hk : r.Kept) (op : Operation) :
    Answers (op.perform ·) r (op.apply r) := by
  cases op with
  | define d => exact (InPlace.define_answers hk.built d).of_unit none
  | registerEnum name => exact (InPlace.define_answers hk.built _).of_unit none
  | registerRecord name fields => exact (InPlace.define_answers hk.built _).of_unit none
  | registerUnion name branches => exact (InPlace.define_answers hk.built _).of_unit none
  | registerKinds g => exact (InPlace.registerKinds_answers r g).of_unit none
  | identifierType kind => exact (InPlace.identifierType_answers hk kind).map some
  | resolve type => exact (InPlace.resolve_answers hk type).map some
  | listType element => exact (InPlace.listType_answers hk.built element).map some

/-- An operation on the store of a registry ends, and does what it does to the registry. -/
theorem perform_stored (hk : r.Kept) (op : Operation) :
    Ends (op.perform · r.stored) ((op.outcome r).1, (op.outcome r).2.stored) := by
  have h := perform_answers hk op
  unfold outcome
  cases hop : op.apply r with
  | ok p =>
    rw [hop] at h
    exact h
  | error e =>
    rw [hop] at h
    exact h

end Operation

end TreeFacts
