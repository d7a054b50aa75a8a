import TreeFacts.Proofs.Program.Fields

namespace TreeFacts

open Program

def Branch.Plain (b : Branch) : Prop := IsName b.name ∧ FieldTypes.Plain b.fields

instance (b : Branch) : Decidable b.Plain :=
  inferInstanceAs (Decidable (IsName b.name ∧ FieldTypes.Plain b.fields))

/-- The definition has nothing but plain names in it, and no union is without branches. -/
def TypeDef.Plain : TypeDef → Prop
  | .subtype name base => IsName name ∧ base.Plain
  | .record name fields => IsName name ∧ FieldTypes.Plain fields
  | .union name branches => IsName name ∧ branches ≠ [] ∧ ∀ b ∈ branches, b.Plain

instance : (d : TypeDef) → Decidable d.Plain
  | .subtype name base => inferInstanceAs (Decidable (IsName name ∧ base.Plain))
  | .record name fields => inferInstanceAs (Decidable (IsName name ∧ FieldTypes.Plain fields))
  | .union name branches =>
    inferInstanceAs (Decidable (IsName name ∧ branches ≠ [] ∧ ∀ b ∈ branches, b.Plain))

def Relation.Plain (r : Relation) : Prop := IsName r.name ∧ FieldTypes.Plain r.columns

instance (r : Relation) : Decidable r.Plain :=
  inferInstanceAs (Decidable (IsName r.name ∧ FieldTypes.Plain r.columns))

namespace Program

/-- Whatever is recognised begins with a point and the given letter. -/
def LedBy {α : Type} (letter : Char) (recognise : List Char → Option α) : Prop :=
  ∀ cs found, recognise cs = some found → ∃ rest, cs = '.' :: letter :: rest

section

variable {α β : Type} {letter : Char} {recognise : List Char → Option α}

theorem LedBy.bind (h : LedBy letter recognise) (next : α → Option β) :
    LedBy letter fun cs => (recognise cs).bind next := by
  intro cs found hfound
  obtain ⟨first, hfirst, -⟩ := Option.bind_eq_some_iff.mp hfound
  exact h cs first hfirst

theorem LedBy.eq_none (h : LedBy letter recognise) {cs : List Char}
    (hcs : ∀ rest, cs ≠ '.' :: letter :: rest) : recognise cs = none := by
  cases hfound : recognise cs with
  | none => rfl
  | some found =>
    obtain ⟨rest, hrest⟩ := h cs found hfound
    exact absurd hrest (hcs rest)

theorem keyword?_ledBy {word : String} {more : List Char}
    (hword : word.toList = '.' :: letter :: more) : LedBy letter (keyword? word) := by
  intro cs rest h
  obtain ⟨after, hafter, -⟩ := Option.bind_eq_some_iff.mp h
  rw [Text.dropFront?_eq_some.mp hafter, hword]
  exact ⟨more ++ after, rfl⟩

end

theorem typeHead?_ledBy (sign : String) : LedBy 't' (typeHead? sign) :=
  (keyword?_ledBy rfl : LedBy 't' (keyword? ".type")).bind _

theorem subtype?_ledBy : LedBy 't' subtype? := (typeHead?_ledBy "<:").bind _

theorem record?_ledBy : LedBy 't' record? := (typeHead?_ledBy "=").bind _

theorem union?_ledBy : LedBy 't' union? := (typeHead?_ledBy "=").bind _

theorem declaration?_ledBy : LedBy 'd' declaration? :=
  (keyword?_ledBy rfl : LedBy 'd' (keyword? ".decl")).bind _

theorem outputs?_ledBy : LedBy 'o' outputs? :=
  (keyword?_ledBy rfl : LedBy 'o' (keyword? ".output")).bind _

theorem init?_ledBy : LedBy 'i' init? :=
  (keyword?_ledBy rfl : LedBy 'i' (keyword? ".init")).bind _

variable {name sign : String} {fields : FieldTypes} {rest : List Char}

/-- A type statement through the blank behind its sign. -/
def headText (sign name : String) : List Char :=
  ['.', 't', 'y', 'p', 'e', ' '] ++ (name.toList ++ ' ' :: (sign.toList ++ [' ']))

theorem keyword?_headText (h : IsName name) (sign : String) (rest : List Char) :
    keyword? ".type" (headText sign name ++ rest) =
      some (name.toList ++ ' ' :: (sign.toList ++ ' ' :: rest)) := by
  have hkeyword := keyword?_append ".type" (name.toList ++ ' ' :: (sign.toList ++ ' ' :: rest))
  rw [h.skipBlanks_append] at hkeyword
  simpa [headText] using hkeyword

theorem name?_space (h : IsName name) (rest : List Char) :
    name? (name.toList ++ ' ' :: rest) = some (name, ' ' :: rest) :=
  name?_append h (by simp [isNameChar])

theorem typeHead?_headText (sign : String) (h : IsName name) {first : Char} {more : List Char}
    (hsign : sign.toList = first :: more) (hfirst : Text.isBlank first = false)
    (rest : List Char) :
    typeHead? sign (headText sign name ++ rest) = some (name, skipBlanks rest) := by
  simp [typeHead?, keyword?_headText h, name?_space h, sign?_append sign hsign hfirst]

theorem typeHead?_headText_of_ne (sign other : String) (h : IsName name) {first second : Char}
    {more most : List Char} (hsign : sign.toList = first :: more)
    (hfirst : Text.isBlank first = false) (hother : other.toList = second :: most)
    (hne : first ≠ second) (rest : List Char) :
    typeHead? other (headText sign name ++ rest) = none := by
  have hskip : (skipBlanks (' ' :: (sign.toList ++ ' ' :: rest))).head? ≠ some second := by
    rw [skipBlanks_space, hsign, List.cons_append, skipBlanks_of_not_isBlank hfirst]
    simpa using hne
  simp [typeHead?, keyword?_headText h, name?_space h, sign?_eq_none other hother hskip]

theorem toList_subtype (name : String) (base : ColumnType) :
    (TypeDef.subtype name base).render.toList = headText "<:" name ++ base.name.toList := by
  simp [TypeDef.render, headText]

theorem toList_record (name : String) (fields : FieldTypes) :
    (TypeDef.record name fields).render.toList =
      headText "=" name ++ '[' :: ((FieldTypes.render fields).toList ++ [']']) := by
  simp [TypeDef.render, headText]

def branchText (b : Branch) : List Char :=
  b.name.toList ++ ' ' :: '\x7b' :: ((FieldTypes.render b.fields).toList ++ ['\x7d'])

theorem toList_union (name : String) (b : Branch) (branches : List Branch) :
    (TypeDef.union name (b :: branches)).render.toList = headText "=" name ++
      (branchText b ++ branches.flatMap fun b => ' ' :: '|' :: ' ' :: branchText b) := by
  rw [TypeDef.render, List.map_cons, String.toList_append, toList_intercalate_cons]
  simp [headText, branchText, List.flatMap_map]

theorem toList_declaration (r : Relation) :
    r.render.toList = ['.', 'd', 'e', 'c', 'l', ' '] ++
      (r.name.toList ++ '(' :: ((FieldTypes.render r.columns).toList ++ [')'])) := by
  simp [Relation.render]

theorem notMem_render (stop : Char) (h : FieldTypes.Plain fields)
    (hstop : ¬(isNameChar stop = true ∨ stop = ':' ∨ stop = ' ' ∨ stop = ',')) :
    stop ∉ (FieldTypes.render fields).toList :=
  fun hmem => hstop (mem_render h hmem)

theorem branch?_branchText {b : Branch} (h : b.Plain) (rest : List Char) :
    branch? (branchText b ++ rest) = some ((b.name, (FieldTypes.render b.fields).toList), rest) := by
  obtain ⟨hname, hfields⟩ := h
  have hbrace : Text.isBlank '\x7b' = false := by decide
  have hopen (rest : List Char) : skipBlanks (' ' :: '\x7b' :: rest) = '\x7b' :: rest := by
    rw [skipBlanks_space, skipBlanks_of_not_isBlank hbrace]
  have hclose := before?_append (notMem_render '\x7d' hfields (by decide)) rest
  simp [branch?, branchText, name?_space hname, hopen, hclose]

/-- Branches behind each other are all recognised where no further one follows. -/
theorem separated_branches {b : Branch} {branches : List Branch} (hb : b.Plain)
    (hbranches : ∀ b ∈ branches, b.Plain) (hrest : (skipBlanks rest).head? ≠ some '|') {fuel : Nat}
    (hfuel : branches.length < fuel) :
    separated "|" branch? fuel
        (branchText b ++ (branches.flatMap (fun b => ' ' :: '|' :: ' ' :: branchText b) ++ rest)) =
      some ((b :: branches).map fun b => (b.name, (FieldTypes.render b.fields).toList), rest) := by
  -- Every branch takes one unit of the fuel.
  obtain ⟨fuel, rfl⟩ : ∃ n, fuel = n + 1 := ⟨fuel - 1, by omega⟩
  induction branches generalizing b fuel with
  | nil =>
    have hnone : sign? "|" rest = none := sign?_eq_none "|" rfl hrest
    simp [separated, branch?_branchText hb, hnone]
  | cons next branches ih =>
    obtain ⟨hnext, hlater⟩ := List.forall_mem_cons.mp hbranches
    obtain ⟨fuel, rfl⟩ : ∃ n, fuel = n + 1 := ⟨fuel - 1, by simp at hfuel; omega⟩
    have hmore := ih hnext hlater fuel (by simp at hfuel; omega)
    have hsign (rest : List Char) :
        sign? "|" (' ' :: '|' :: ' ' :: (branchText next ++ rest)) =
          some (branchText next ++ rest) := by
      have hbar := sign?_append "|" rfl (by decide) (branchText next ++ rest)
      rw [branchText, List.append_assoc, hnext.1.skipBlanks_append] at hbar
      rw [branchText, List.append_assoc]
      exact hbar
    rw [separated, branch?_branchText hb]
    simp only [List.flatMap_cons, List.cons_append, List.append_assoc, Option.bind_eq_bind,
      Option.bind_some, hsign, hmore]
    rfl

/-- What a subtype declares. -/
def subtypeOf? : TypeDef → Option TypeDef
  | .subtype name base => some (.subtype name base)
  | _ => none

def recordOf? : TypeDef → Option (String × List Char)
  | .record name fields => some (name, (FieldTypes.render fields).toList)
  | _ => none

def unionOf? : TypeDef → Option (String × List (String × List Char))
  | .union name branches =>
    some (name, branches.map fun b => (b.name, (FieldTypes.render b.fields).toList))
  | _ => none

theorem subtype?_render {d : TypeDef} (h : d.Plain) (rest : List Char) :
    subtype? (d.render.toList ++ '\n' :: rest) = (subtypeOf? d).map (·, '\n' :: rest) := by
  cases d with
  | subtype name base =>
    obtain ⟨hname, hbase⟩ := h
    have hhead := typeHead?_headText "<:" hname rfl (by decide)
      (base.name.toList ++ '\n' :: rest)
    have hbreak : ∀ c ∈ ('\n' :: rest).head?, isNameChar c = false := by simp [isNameChar]
    rw [hbase.isName.skipBlanks_append] at hhead
    rw [toList_subtype, List.append_assoc]
    simp [subtype?, subtypeOf?, hhead, name?_append hbase.isName hbreak, hbase.ofName_name]
  | record name fields =>
    rw [toList_record, List.append_assoc]
    have hhead := typeHead?_headText_of_ne "=" "<:" h.1 rfl (by decide) rfl (by decide)
    simp [subtype?, subtypeOf?, hhead]
  | union name branches =>
    obtain ⟨hname, hne, -⟩ := h
    obtain ⟨b, branches, rfl⟩ := List.exists_cons_of_ne_nil hne
    rw [toList_union, List.append_assoc]
    have hhead := typeHead?_headText_of_ne "=" "<:" hname rfl (by decide) rfl (by decide)
    simp [subtype?, subtypeOf?, hhead]

theorem record?_render {d : TypeDef} (h : d.Plain) (rest : List Char) :
    record? (d.render.toList ++ rest) = (recordOf? d).map (·, rest) := by
  cases d with
  | subtype name base =>
    rw [toList_subtype, List.append_assoc]
    have hhead := typeHead?_headText_of_ne "<:" "=" h.1 rfl (by decide) rfl (by decide)
    simp [record?, recordOf?, hhead]
  | record name fields =>
    obtain ⟨hname, hfields⟩ := h
    have hbracket : Text.isBlank '[' = false := by decide
    have hhead := typeHead?_headText "=" hname rfl (by decide)
      ('[' :: ((FieldTypes.render fields).toList ++ ']' :: rest))
    have hclose := before?_append (notMem_render ']' hfields (by decide)) rest
    rw [skipBlanks_of_not_isBlank hbracket] at hhead
    rw [toList_record, List.append_assoc]
    simp [record?, recordOf?, hhead, hclose]
  | union name branches =>
    obtain ⟨hname, hne, hbranches⟩ := h
    obtain ⟨b, branches, rfl⟩ := List.exists_cons_of_ne_nil hne
    obtain ⟨c, cs, hfirst, hc, -⟩ := (hbranches b List.mem_cons_self).1.exists_cons
    have hhead (rest : List Char) := typeHead?_headText "=" hname rfl (by decide) rest
    have hbracket : '[' ≠ c := by
      rintro rfl
      exact absurd hc (by decide)
    have hdrop (rest : List Char) : Text.dropFront? ['['] (c :: rest) = none :=
      Text.dropFront?_cons_of_ne hbracket [] rest
    have hblank := isBlank_of_isNameStart hc
    rw [toList_union, List.append_assoc]
    simp [record?, recordOf?, hhead, branchText, hfirst, skipBlanks_of_not_isBlank hblank, hdrop]

theorem length_le_length_flatMap {α β : Type} {f : α → List β} {as : List α}
    (h : ∀ a, 0 < (f a).length) : as.length ≤ (as.flatMap f).length := by
  induction as with
  | nil => simp
  | cons a as ih =>
    have ha := h a
    rw [List.flatMap_cons, List.length_append, List.length_cons]
    omega

theorem union?_branches {b : Branch} {branches : List Branch} (hname : IsName name)
    (hbranches : ∀ b' ∈ b :: branches, b'.Plain) {rest : List Char}
    (hrest : (skipBlanks rest).head? ≠ some '|') :
    union? ((TypeDef.union name (b :: branches)).render.toList ++ rest) =
      (unionOf? (.union name (b :: branches))).map (·, rest) := by
  obtain ⟨hb, hmore⟩ := List.forall_mem_cons.mp hbranches
  let more := branches.flatMap fun b => ' ' :: '|' :: ' ' :: branchText b
  have hhead := typeHead?_headText "=" hname rfl (by decide) (branchText b ++ (more ++ rest))
  have hskip : skipBlanks (branchText b ++ (more ++ rest)) = branchText b ++ (more ++ rest) := by
    rw [branchText, List.append_assoc, hb.1.skipBlanks_append]
  -- The fuel is the length of the text, and no branch is empty.
  have hfuel : branches.length < (branchText b ++ (more ++ rest)).length := by
    have hlength : branches.length ≤ more.length :=
      length_le_length_flatMap fun _ => Nat.succ_pos _
    have hfirst : 0 < (branchText b).length := by
      rw [branchText, List.length_append, List.length_cons]
      omega
    rw [List.length_append, List.length_append]
    omega
  rw [hskip] at hhead
  rw [toList_union, List.append_assoc, List.append_assoc]
  simp only [union?, unionOf?, hhead, Option.bind_eq_bind, Option.bind_some, Option.map_some,
    separated_branches hb hmore hrest hfuel, more]
  rfl

theorem union?_render {d : TypeDef} (h : d.Plain) {rest : List Char}
    (hrest : (skipBlanks rest).head? ≠ some '|') :
    union? (d.render.toList ++ rest) = (unionOf? d).map (·, rest) := by
  cases d with
  | subtype name base =>
    rw [toList_subtype, List.append_assoc]
    have hhead := typeHead?_headText_of_ne "<:" "=" h.1 rfl (by decide) rfl (by decide)
    simp [union?, unionOf?, hhead]
  | record name fields =>
    have hbracket : Text.isBlank '[' = false := by decide
    have hhead := typeHead?_headText "=" h.1 rfl (by decide)
      ('[' :: ((FieldTypes.render fields).toList ++ ']' :: rest))
    have hnone (fuel : Nat) (rest : List Char) :
        separated "|" branch? fuel ('[' :: rest) = none := by
      have hname : name? ('[' :: rest) = none := name?_eq_none (by decide) rest
      cases fuel with
      | zero => rfl
      | succ fuel => simp [separated, branch?, hname]
    rw [skipBlanks_of_not_isBlank hbracket] at hhead
    rw [toList_record, List.append_assoc]
    simp [union?, unionOf?, hhead, hnone]
  | union name branches =>
    obtain ⟨hname, hne, hbranches⟩ := h
    obtain ⟨b, branches, rfl⟩ := List.exists_cons_of_ne_nil hne
    exact union?_branches hname hbranches hrest

theorem declaration?_render {r : Relation} (h : r.Plain) (rest : List Char) :
    declaration? (r.render.toList ++ rest) =
      some ((r.name, (FieldTypes.render r.columns).toList), rest) := by
  obtain ⟨hname, hcolumns⟩ := h
  have hparen : Text.isBlank '(' = false := by decide
  have hkeyword := keyword?_append ".decl"
    (r.name.toList ++ '(' :: ((FieldTypes.render r.columns).toList ++ ')' :: rest))
  have hqualified (rest : List Char) :
      qualifiedName? (r.name.toList ++ '(' :: rest) = some (r.name, '(' :: rest) :=
    qualifiedName?_append hname (by simp [isNameChar]) (by simp)
  have hclose := before?_append (notMem_render ')' hcolumns (by decide)) rest
  have hword : ".decl".toList = ['.', 'd', 'e', 'c', 'l'] := rfl
  rw [hname.skipBlanks_append] at hkeyword
  simp only [hword, List.cons_append, List.nil_append] at hkeyword
  rw [toList_declaration, List.append_assoc]
  simp [declaration?, hkeyword, hqualified, skipBlanks_of_not_isBlank hparen, hclose]

end Program

end TreeFacts
