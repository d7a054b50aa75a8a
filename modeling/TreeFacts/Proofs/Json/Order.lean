import TreeFacts.Proofs.Json.Reading

namespace TreeFacts.Json

mutual

/-- No object has two members with one key. -/
def NoRepeats : Json → Prop
  | arr items => NoRepeatsInItems items
  | obj members => (members.map (·.1)).Nodup ∧ NoRepeatsInMembers members
  | null | bool _ | int _ | real | str _ => True

def NoRepeatsInItems : List Json → Prop
  | [] => True
  | item :: items => item.NoRepeats ∧ NoRepeatsInItems items

def NoRepeatsInMembers : List (String × Json) → Prop
  | [] => True
  | (_, value) :: members => value.NoRepeats ∧ NoRepeatsInMembers members

end

mutual

/-- Documents that differ at most in the order of the members of their objects. -/
inductive Same : Json → Json → Prop where
  | refl (j : Json) : Same j j
  | arr {items items' : List Json} : SameItems items items' → Same (arr items) (arr items')
  | obj {members reordered members' : List (String × Json)} : SameMembers members reordered →
      reordered.Perm members' → Same (obj members) (obj members')

inductive SameItems : List Json → List Json → Prop where
  | nil : SameItems [] []
  | cons {j j' : Json} {items items' : List Json} : Same j j' → SameItems items items' →
      SameItems (j :: items) (j' :: items')

inductive SameMembers : List (String × Json) → List (String × Json) → Prop where
  | nil : SameMembers [] []
  | cons {key : String} {j j' : Json} {members members' : List (String × Json)} : Same j j' →
      SameMembers members members' → SameMembers ((key, j) :: members) ((key, j') :: members')

end

theorem SameMembers.refl : ∀ members : List (String × Json), SameMembers members members
  | [] => .nil
  | (_, j) :: members => .cons (.refl j) (SameMembers.refl members)

theorem SameMembers.append : ∀ {members members' : List (String × Json)},
    SameMembers members members' → ∀ more, SameMembers (members ++ more) (members' ++ more)
  | _, _, .nil, more => .refl more
  | _, _, .cons h hs, more => .cons h (hs.append more)

theorem nestingOfMembers_append (members more : List (String × Json)) :
    nestingOfMembers (members ++ more) =
      max (nestingOfMembers members) (nestingOfMembers more) := by
  induction members with
  | nil => simp [nestingOfMembers]
  | cons m members ih =>
    rw [List.cons_append, nestingOfMembers, nestingOfMembers, ih, Nat.max_assoc]

theorem nestingOfMembers_perm {members members' : List (String × Json)}
    (h : members.Perm members') : nestingOfMembers members = nestingOfMembers members' := by
  induction h with
  | nil => rfl
  | cons m _ ih => rw [nestingOfMembers, nestingOfMembers, ih]
  | swap m m' members =>
    simp only [nestingOfMembers]
    rw [Nat.max_left_comm]
  | trans _ _ ih ih' => exact ih.trans ih'

mutual

theorem Same.nesting_eq : ∀ {j j' : Json}, Same j j' → j.nesting = j'.nesting
  | _, _, .refl _ => rfl
  | _, _, .arr h => by rw [nesting, nesting, h.nesting_eq]
  | _, _, .obj h hp => by rw [nesting, nesting, h.nesting_eq, nestingOfMembers_perm hp]

theorem SameItems.nesting_eq : ∀ {items items' : List Json}, SameItems items items' →
    nestingOfItems items = nestingOfItems items'
  | _, _, .nil => rfl
  | _, _, .cons h hs => by rw [nestingOfItems, nestingOfItems, h.nesting_eq, hs.nesting_eq]

theorem SameMembers.nesting_eq : ∀ {members members' : List (String × Json)},
    SameMembers members members' → nestingOfMembers members = nestingOfMembers members'
  | _, _, .nil => rfl
  | _, _, .cons h hs => by rw [nestingOfMembers, nestingOfMembers, h.nesting_eq, hs.nesting_eq]

end

end TreeFacts.Json
