import TreeFacts.Proofs.Tree.Detached
import TreeFacts.Template.Format

namespace TreeFacts

namespace Lifted

/-- A number, text, a truth value or nothing. -/
def isPlain : Lifted → Bool
  | number _ | text _ | bool _ | absent => true
  | node _ | list _ | record _ | variant _ _ => false

/-- Values of the same place, one in the given forest and one where the chosen nodes are detached.
A node that another value leads to may stand as its identifier there. -/
inductive Corresponds (chosen : NodeId → Bool) (roots : List Node) : Lifted → Lifted → Prop
  | number (n) : Corresponds chosen roots (number n) (number n)
  | text (s) : Corresponds chosen roots (text s) (text s)
  | bool (b) : Corresponds chosen roots (bool b) (bool b)
  | absent : Corresponds chosen roots absent absent
  | node {n} : n ∈ nodesOfRoots roots → Corresponds chosen roots (node n) (node (n.detach chosen))
  | reference {n} : n ∈ nodesOfRoots roots → Corresponds chosen roots (node n) (number n.id)
  | list {items items'} : List.Forall₂ (Corresponds chosen roots) items items' →
      Corresponds chosen roots (list items) (list items')
  | record {fields fields'} : fields.map (·.1) = fields'.map (·.1) →
      List.Forall₂ (Corresponds chosen roots) (fields.map (·.2)) (fields'.map (·.2)) →
      Corresponds chosen roots (record fields) (record fields')
  | variant (tag) {payload payload'} : payload.map (·.1) = payload'.map (·.1) →
      List.Forall₂ (Corresponds chosen roots) (payload.map (·.2)) (payload'.map (·.2)) →
      Corresponds chosen roots (variant tag payload) (variant tag payload')

variable {chosen : NodeId → Bool} {roots : List Node} {v v' : Lifted}

theorem Corresponds.eq_of_isPlain (h : Corresponds chosen roots v v') (hv : v.isPlain = true) :
    v' = v := by
  cases h with
  | number | text | bool | absent => rfl
  | node | reference | list | record | variant => cases hv

mutual

/-- A value of the forest corresponds to what is left of it. -/
theorem corresponds_ofTree : ∀ v : Value, (∀ n ∈ v.nodes, n ∈ nodesOfRoots roots) →
    Corresponds chosen roots (ofTree v) (ofTree (v.detach chosen))
  | .node n, h => by
    have hn : n ∈ nodesOfRoots roots := h n (by rw [Value.nodes]; exact List.mem_cons_self)
    by_cases hchosen : chosen n.id = true
    · rw [Value.detach, if_pos hchosen, ofTree, ofTree]
      exact .reference hn
    · rw [Value.detach, if_neg hchosen, ofTree, ofTree]
      exact .node hn
  | .list items, h => by
    rw [Value.detach, ofTree, ofTree]
    exact .list (corresponds_ofTreeItems items (by rwa [Value.nodes] at h))
  | .map entries, h => by
    rw [Value.detach, ofTree, ofTree]
    obtain ⟨hkeys, hvalues⟩ := corresponds_ofTreeEntries entries (by rwa [Value.nodes] at h)
    exact .record hkeys hvalues
  | .null, _ => by
    rw [Value.detach, ofTree]
    exact .absent
  | .bool b, _ => by
    rw [Value.detach, ofTree]
    exact .bool b
  | .int n, _ => by
    rw [Value.detach, ofTree]
    exact .number n
  | .text s, _ => by
    rw [Value.detach, ofTree]
    exact .text s

theorem corresponds_ofTreeItems : ∀ items : List Value,
    (∀ n ∈ Value.nodesInList items, n ∈ nodesOfRoots roots) →
    List.Forall₂ (Corresponds chosen roots) (ofTreeItems items)
      (ofTreeItems (Value.detachInList chosen items))
  | [], _ => by
    rw [Value.detachInList, ofTreeItems]
    exact .nil
  | v :: rest, h => by
    rw [Value.nodesInList] at h
    obtain ⟨hv, hrest⟩ := List.forall_mem_append.mp h
    rw [Value.detachInList, ofTreeItems, ofTreeItems]
    exact .cons (corresponds_ofTree v hv) (corresponds_ofTreeItems rest hrest)

theorem corresponds_ofTreeEntries : ∀ entries : List (String × Value),
    (∀ n ∈ Value.nodesInEntries entries, n ∈ nodesOfRoots roots) →
    (ofTreeEntries entries).map (·.1) =
        (ofTreeEntries (Value.detachInEntries chosen entries)).map (·.1) ∧
      List.Forall₂ (Corresponds chosen roots) ((ofTreeEntries entries).map (·.2))
        ((ofTreeEntries (Value.detachInEntries chosen entries)).map (·.2))
  | [], _ => by
    rw [Value.detachInEntries, ofTreeEntries]
    exact ⟨rfl, .nil⟩
  | (key, v) :: rest, h => by
    rw [Value.nodesInEntries] at h
    obtain ⟨hv, hrest⟩ := List.forall_mem_append.mp h
    obtain ⟨hkeys, hvalues⟩ := corresponds_ofTreeEntries rest hrest
    rw [Value.detachInEntries, ofTreeEntries, ofTreeEntries]
    exact ⟨congrArg (key :: ·) hkeys, .cons (corresponds_ofTree v hv) hvalues⟩

end

end Lifted

namespace Template

open Lifted

section

variable {α β : Type} {R : α → β → Prop}

theorem rel_getElem? {as : List α} {bs : List β} (h : List.Forall₂ R as bs) (i : Nat) :
    Option.Rel R as[i]? bs[i]? := by
  induction h generalizing i with
  | nil => exact .none
  | cons hab _ ih =>
    cases i with
    | zero => exact .some hab
    | succ i => exact ih i

theorem rel_lookup {es : List (String × α)} {fs : List (String × β)}
    (hkeys : es.map (·.1) = fs.map (·.1))
    (hvalues : List.Forall₂ R (es.map (·.2)) (fs.map (·.2))) (name : String) :
    Option.Rel R (es.lookup name) (fs.lookup name) := by
  induction es generalizing fs with
  | nil =>
    cases List.map_eq_nil_iff.mp hkeys.symm
    exact .none
  | cons e es ih =>
    cases fs with
    | nil => cases hkeys
    | cons f fs =>
      obtain ⟨key, a⟩ := e
      obtain ⟨key', b⟩ := f
      obtain ⟨hkey, hrest⟩ := List.cons.inj hkeys
      obtain ⟨hab, hmore⟩ := List.forall₂_cons.mp hvalues
      cases hkey
      rw [List.lookup_cons, List.lookup_cons]
      cases name == key with
      | true => exact .some hab
      | false => exact ih hrest hmore

theorem rel_bind {γ δ : Type} {S : γ → δ → Prop} {o : Option α} {o' : Option β}
    {f : α → Option γ} {g : β → Option δ} (h : Option.Rel R o o')
    (hnext : ∀ a b, R a b → Option.Rel S (f a) (g b)) : Option.Rel S (o.bind f) (o'.bind g) := by
  cases h with
  | none => exact .none
  | some hab => exact hnext _ _ hab

end

variable {chosen : NodeId → Bool} {roots : List Node} {ix ix' : NodeIndex}
  {sources : List (Nat × List UInt8)} {v v' : Lifted}

namespace Context

/-- What a segment leads to from a node does not hang on which nodes are detached. -/
theorem nodeStep?_corresponds {n : Node} (hn : n ∈ nodesOfRoots roots) (segment : String) :
    Option.Rel (Corresponds chosen roots) (nodeStep? ⟨sources, some ix⟩ n segment)
      (nodeStep? ⟨sources, some ix'⟩ (n.detach chosen) segment) := by
  unfold nodeStep?
  split
  next =>
    rw [Node.id_detach]
    exact .some (.number n.id)
  next =>
    split
    next =>
      rw [Node.kind_detach]
      exact .some (.text n.kind)
    next =>
      split
      next =>
        rw [Node.src_detach]
        exact .some (.text n.src)
      next =>
        split
        next =>
          have hsource : sourceText? ⟨sources, some ix'⟩ (n.detach chosen) =
              sourceText? ⟨sources, some ix⟩ n := by
            unfold sourceText?
            rw [Node.src_detach]
          rw [hsource]
          cases sourceText? ⟨sources, some ix⟩ n with
          | none => exact .none
          | some text => exact .some (.text text)
        next =>
          rw [Node.field?_detach, Option.map_map]
          cases hfield : n.field? segment with
          | none => exact .none
          | some v =>
            have hnodes : ∀ m ∈ v.nodes, m ∈ nodesOfRoots roots := fun m hm =>
              child_mem_nodesOfRoots hn (Node.mem_children_of_field? hfield hm)
            exact .some (corresponds_ofTree v hnodes)

/-- The indices of the two forests, by which references are followed. -/
structure Indexed (chosen : NodeId → Bool) (roots : List Node) (ix ix' : NodeIndex) : Prop where
  get? : ∀ id n, ix.get? id = some n ↔ n.id = id ∧ n ∈ nodesOfRoots roots
  detached : ∀ id, ix'.get? id = (ix.get? id).map (Node.detach chosen)

/-- One segment leads from corresponding values to corresponding values. A reference that stands in
place of a node leads on from that node. -/
theorem step?_corresponds (sources : List (Nat × List UInt8)) (hix : Indexed chosen roots ix ix')
    (h : Corresponds chosen roots v v') (segment : String) :
    Option.Rel (Corresponds chosen roots) (step? ⟨sources, some ix⟩ v segment)
      (step? ⟨sources, some ix'⟩ v' segment) := by
  have hnumber (ix : NodeIndex) (id : NodeId) : step? ⟨sources, some ix⟩ (.number id) segment =
      (ix.get? id).bind fun n => nodeStep? ⟨sources, some ix⟩ n segment := rfl
  cases h with
  | number id =>
    rw [hnumber, hnumber, hix.detached]
    cases hget : ix.get? id with
    | none => exact .none
    | some n => exact nodeStep?_corresponds ((hix.get? id n).mp hget).2 segment
  | text s => exact .none
  | bool b => exact .none
  | absent => exact .none
  | node hn => exact nodeStep?_corresponds hn segment
  | @reference n hn =>
    have hget : ix.get? n.id = some n := (hix.get? n.id n).mpr ⟨rfl, hn⟩
    rw [hnumber, hix.detached, hget]
    exact nodeStep?_corresponds hn segment
  | list hitems =>
    rw [step?, step?]
    split
    next =>
      rw [hitems.length_eq]
      exact .some (.number _)
    next =>
      cases Text.readNat? UInt64.size segment.toList with
      | none => exact .none
      | some i => exact rel_getElem? hitems i
  | record hkeys hvalues => exact rel_lookup hkeys hvalues segment
  | variant tag hkeys hvalues =>
    rw [step?, step?]
    split
    next => exact .some (.text tag)
    next => exact rel_lookup hkeys hvalues segment

/-- A path leads from corresponding values to corresponding values, or nowhere from both. -/
theorem follow?_corresponds (sources : List (Nat × List UInt8)) (hix : Indexed chosen roots ix ix')
    (h : Corresponds chosen roots v v') (path : List (List Char)) :
    Option.Rel (Corresponds chosen roots) (follow? ⟨sources, some ix⟩ v path)
      (follow? ⟨sources, some ix'⟩ v' path) := by
  induction path generalizing v v' with
  | nil => exact .some h
  | cons segment path ih =>
    have hstep := step?_corresponds sources hix h (String.ofList segment)
    exact rel_bind hstep fun w w' hw => ih hw

end Context

/-- A placeholder stands for corresponding values, or for none in both forests. -/
theorem Placeholder.resolve_corresponds (sources : List (Nat × List UInt8))
    (hix : Context.Indexed chosen roots ix ix') {f f' : LiftedFact}
    (hf : List.Forall₂ (Corresponds chosen roots) f.values f'.values)
    (p : Placeholder) :
    (∃ v v', p.resolve ⟨sources, some ix⟩ f = .ok v ∧ p.resolve ⟨sources, some ix'⟩ f' = .ok v' ∧
      Corresponds chosen roots v v') ∨
    ∃ e, p.resolve ⟨sources, some ix⟩ f = .error e ∧
      p.resolve ⟨sources, some ix'⟩ f' = .error e := by
  unfold resolve
  cases Text.readNat? UInt64.size p.digits with
  | none => exact Or.inr ⟨_, rfl, rfl⟩
  | some index =>
    have hvalue := rel_bind (rel_getElem? hf index) fun v v' hv =>
      Context.follow?_corresponds sources hix hv p.path
    dsimp only
    generalize (f.values[index]?).bind _ = value, (f'.values[index]?).bind _ = value' at hvalue ⊢
    cases hvalue with
    | none => exact Or.inr ⟨_, rfl, rfl⟩
    | some hv => exact Or.inl ⟨_, _, rfl, rfl, hv⟩

/-- Nodes may stand embedded or as references to trees of their own: with each forest indexed, a
placeholder stands for a value in both or in neither, and where the value is no node and holds none
it is the same. -/
theorem Placeholder.resolve_detached {chosen : NodeId → Bool} {roots roots' : List Node}
    (hdistinct : ((walkAll roots).map (·.2.id)).Nodup)
    (hroots : roots'.Perm (detachAll chosen roots)) :
    ∃ ix ix', NodeIndex.ofRoots roots = .ok ix ∧ NodeIndex.ofRoots roots' = .ok ix' ∧
      ∀ (sources : List (Nat × List UInt8)) (f f' : LiftedFact),
        List.Forall₂ (Corresponds chosen roots) f.values f'.values → ∀ p : Placeholder,
          ((∃ v, p.resolve ⟨sources, some ix⟩ f = .ok v) ↔
            ∃ v, p.resolve ⟨sources, some ix'⟩ f' = .ok v) ∧
          ∀ v, p.resolve ⟨sources, some ix⟩ f = .ok v → v.isPlain = true →
            p.resolve ⟨sources, some ix'⟩ f' = .ok v ∧
            (Piece.placeholder p).format ⟨sources, some ix'⟩ f' = .ok v.render := by
  obtain ⟨ix, ix', hix, hix', hget, hdetached⟩ := NodeIndex.ofRoots_detachAll hdistinct hroots
  refine ⟨ix, ix', hix, hix', fun sources f f' hf p => ?_⟩
  rcases resolve_corresponds sources ⟨hget, hdetached⟩ hf p with
    ⟨w, w', hw, hw', hsame⟩ | ⟨e, he, he'⟩
  · refine ⟨⟨fun _ => ⟨w', hw'⟩, fun _ => ⟨w, hw⟩⟩, fun v hv hplain => ?_⟩
    have heq : v = w := Except.ok.inj (hv.symm.trans hw)
    subst heq
    have hsame : w' = v := hsame.eq_of_isPlain hplain
    rw [Piece.format, hw', hsame]
    exact ⟨rfl, rfl⟩
  · constructor
    · constructor
      · rintro ⟨v, hv⟩
        rw [he] at hv
        cases hv
      · rintro ⟨v, hv⟩
        rw [he'] at hv
        cases hv
    · intro v hv
      rw [he] at hv
      cases hv

def ownerType : Node := .mk 5 "17:7:0" "ElementaryTypeName" [("name", .text "address")]

def ownerDeclaration : Node := .mk 4 "17:13:0" "VariableDeclaration"
  [("name", .text "owner"), ("typeName", .node ownerType)]

def vault : Node := .mk 1 "0:60:0" "ContractDefinition"
  [("name", .text "Vault"), ("nodes", .list [.node ownerDeclaration])]

def vaultFact (n : Node) : LiftedFact := ⟨"holds", ["contract"], [.node n]⟩

/-- The name of the type of a contract's first declaration. -/
def firstType : Placeholder :=
  ⟨['0'], ["nodes".toList, "0".toList, "typeName".toList, "name".toList]⟩

/-- A path through a declaration and its type, first as parts of their contract, then each as a tree
of its own. -/
theorem resolve_detached_vault :
    ((walkAll [vault]).map (·.2.id)).Nodup ∧
      (detachAll (· ≠ 1) [vault]).map Node.id = [1, 4, 5] ∧
      ∃ ix ix', NodeIndex.ofRoots [vault] = .ok ix ∧
        NodeIndex.ofRoots (detachAll (· ≠ 1) [vault]) = .ok ix' ∧
        firstType.resolve ⟨[], some ix⟩ (vaultFact vault) = .ok (.text "address") ∧
        firstType.resolve ⟨[], some ix'⟩ (vaultFact (vault.detach (· ≠ 1))) =
          .ok (.text "address") := by
  have hdistinct : ((walkAll [vault]).map (·.2.id)).Nodup := by decide +kernel
  have hroots : (detachAll (· ≠ 1) [vault]).map Node.id = [1, 4, 5] := by decide +kernel
  have hvault : vault ∈ nodesOfRoots [vault] := by
    rw [nodesOfRoots_eq, List.flatMap_singleton, Node.subtrees_eq]
    exact List.mem_cons_self
  obtain ⟨ix, ix', hix, hix', hall⟩ :=
    Placeholder.resolve_detached hdistinct (List.Perm.refl (detachAll (· ≠ 1) [vault]))
  have hvalue : firstType.resolve ⟨[], some ix⟩ (vaultFact vault) = .ok (.text "address") := rfl
  have hfacts : List.Forall₂ (Corresponds (· ≠ 1) [vault]) (vaultFact vault).values
      (vaultFact (vault.detach (· ≠ 1))).values := .cons (.node hvault) .nil
  obtain ⟨-, hplain⟩ := hall [] _ _ hfacts firstType
  exact ⟨hdistinct, hroots, ix, ix', hix, hix', hvalue, (hplain _ hvalue rfl).1⟩

end Template

end TreeFacts
