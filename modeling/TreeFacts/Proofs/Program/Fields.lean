import TreeFacts.Program.Assembly
import TreeFacts.Program.Statement
import TreeFacts.Proofs.Program.Lexeme
import TreeFacts.Proofs.Result

namespace TreeFacts

theorem Text.trim_eq_self {cs : List Char} (hfirst : ∀ c ∈ cs.head?, isBlank c = false)
    (hlast : ∀ c ∈ cs.getLast?, isBlank c = false) : trim cs = cs := by
  have hstays {text : List Char} (h : ∀ c ∈ text.head?, isBlank c = false) :
      text.dropWhile isBlank = text := by
    cases text with
    | nil => rfl
    | cons c text => simp [h c rfl]
  have hend : cs.reverse.dropWhile isBlank = cs.reverse :=
    hstays (by rw [List.head?_reverse]; exact hlast)
  rw [trim, trimStart, hstays hfirst, trimEnd, hend, List.reverse_reverse]

theorem Text.trim_space (cs : List Char) : trim (' ' :: cs) = trim cs := by
  have hspace : isBlank ' ' = true := by decide
  simp [trim, trimStart, hspace]

/-- Texts behind the first stand each behind a separator. -/
theorem toList_intercalate_cons (separator first : String) (more : List String) :
    (separator.intercalate (first :: more)).toList =
      first.toList ++ more.flatMap fun text => separator.toList ++ text.toList := by
  induction more generalizing first with
  | nil => simp
  | cons next more ih =>
    rw [String.intercalate_cons_cons, String.toList_append, String.toList_append, ih]
    simp

open Program

/-- A named type has a name that stands for no other type in a program. -/
def ColumnType.Plain : ColumnType → Prop
  | .named name => IsName name ∧ name ≠ "number" ∧ name ≠ "symbol"
  | _ => True

instance : (type : ColumnType) → Decidable type.Plain
  | .named name => inferInstanceAs (Decidable (IsName name ∧ name ≠ "number" ∧ name ≠ "symbol"))
  | .number | .symbol => isTrue trivial

def FieldTypes.Plain (fields : FieldTypes) : Prop := ∀ field ∈ fields, IsName field.1 ∧ field.2.Plain

instance (fields : FieldTypes) : Decidable (FieldTypes.Plain fields) :=
  inferInstanceAs (Decidable (∀ field ∈ fields, IsName field.1 ∧ field.2.Plain))

theorem ColumnType.Plain.isName {type : ColumnType} (h : type.Plain) : IsName type.name := by
  cases type with
  | number => decide
  | symbol => decide
  | named name => exact h.1

theorem ColumnType.Plain.ofName_name {type : ColumnType} (h : type.Plain) :
    ofName type.name = type := by
  cases type with
  | number => rfl
  | symbol => rfl
  | named name => rw [ofName, ColumnType.name, if_neg h.2.1, if_neg h.2.2]

namespace Program

variable {name : String} {field : String × ColumnType} {fields : FieldTypes} {c : Char}

theorem IsName.trim_eq (h : IsName name) : Text.trim name.toList = name.toList := by
  refine Text.trim_eq_self (fun c hc => ?_) (fun c hc => ?_)
  · exact isBlank_of_isNameChar (h.isNameChar (List.mem_of_head? hc))
  · exact isBlank_of_isNameChar (h.isNameChar (List.mem_of_getLast? hc))

/-- A field as it stands in a program. -/
def fieldText (field : String × ColumnType) : List Char :=
  field.1.toList ++ ':' :: ' ' :: field.2.name.toList

theorem trim_fieldText (hname : IsName field.1) (htype : field.2.Plain) :
    Text.trim (fieldText field) = fieldText field := by
  obtain ⟨c, cs, hfirst, hc, -⟩ := hname.exists_cons
  obtain ⟨d, ds, hlast, -⟩ := htype.isName.exists_cons
  refine Text.trim_eq_self (fun a ha => ?_) (fun a ha => ?_)
  · have hac : a = c := by simpa [fieldText, hfirst, eq_comm] using ha
    rw [hac]
    exact isBlank_of_isNameStart hc
  · have hmem : a ∈ field.2.name.toList := by
      apply List.mem_of_getLast?
      simpa [fieldText, hlast, List.getLast?_append, List.getLast?_cons_cons] using ha
    exact isBlank_of_isNameChar (htype.isName.isNameChar hmem)

theorem fieldType_fieldText (hname : IsName field.1) (htype : field.2.Plain) :
    fieldType (fieldText field) = .ok field := by
  have hcolon : ':' ∉ field.1.toList := fun hmem => absurd (hname.isNameChar hmem) (by decide)
  rw [fieldType, fieldText, before?_append hcolon]
  simp only [ColumnType.parse, String.toList_ofList]
  rw [Text.trim_space, hname.trim_eq, htype.isName.trim_eq, String.ofList_toList,
    String.ofList_toList, htype.ofName_name]

theorem toList_render_cons (field : String × ColumnType) (fields : FieldTypes) :
    (FieldTypes.render (field :: fields)).toList =
      fieldText field ++ fields.flatMap fun field => ',' :: ' ' :: fieldText field := by
  have htext (field : String × ColumnType) :
      (field.1 ++ ": " ++ field.2.name).toList = fieldText field := by
    have hcolon : ": ".toList = [':', ' '] := rfl
    simp [fieldText, hcolon]
  have hcomma : ", ".toList = [',', ' '] := rfl
  rw [FieldTypes.render, List.map_cons, toList_intercalate_cons, htext, List.flatMap_map]
  simp only [htext, hcomma]
  rfl

theorem mem_fieldText (hname : IsName field.1) (htype : field.2.Plain) (hc : c ∈ fieldText field) :
    isNameChar c = true ∨ c = ':' ∨ c = ' ' := by
  simp only [fieldText, List.mem_append, List.mem_cons] at hc
  rcases hc with hc | rfl | rfl | hc
  · exact Or.inl (hname.isNameChar hc)
  · exact Or.inr (Or.inl rfl)
  · exact Or.inr (Or.inr rfl)
  · exact Or.inl (htype.isName.isNameChar hc)

theorem comma_notMem_fieldText (hname : IsName field.1) (htype : field.2.Plain) :
    ',' ∉ fieldText field :=
  fun hmem => absurd (mem_fieldText hname htype hmem) (by decide)

/-- Names, colons, commas and spaces make up the text of fields. -/
theorem mem_render (h : FieldTypes.Plain fields) (hc : c ∈ (FieldTypes.render fields).toList) :
    isNameChar c = true ∨ c = ':' ∨ c = ' ' ∨ c = ',' := by
  have hfield {field : String × ColumnType} (hmem : field ∈ fields) (hc : c ∈ fieldText field) :
      isNameChar c = true ∨ c = ':' ∨ c = ' ' ∨ c = ',' := by
    obtain ⟨hname, htype⟩ := h field hmem
    rcases mem_fieldText hname htype hc with hc | hc | hc
    · exact Or.inl hc
    · exact Or.inr (Or.inl hc)
    · exact Or.inr (Or.inr (Or.inl hc))
  cases fields with
  | nil => simp [FieldTypes.render] at hc
  | cons first more =>
    rw [toList_render_cons, List.mem_append, List.mem_flatMap] at hc
    rcases hc with hc | ⟨field, hmem, hc⟩
    · exact hfield List.mem_cons_self hc
    · simp only [List.mem_cons] at hc
      rcases hc with hcomma | hspace | hc
      · exact Or.inr (Or.inr (Or.inr hcomma))
      · exact Or.inr (Or.inr (Or.inl hspace))
      · exact hfield (List.mem_cons_of_mem _ hmem) hc

theorem splitOn_fields {text : List Char} (htext : ',' ∉ text) (h : FieldTypes.Plain fields) :
    (text ++ fields.flatMap fun field => ',' :: ' ' :: fieldText field).splitOn ',' =
      text :: fields.map fun field => ' ' :: fieldText field := by
  induction fields generalizing text with
  | nil => simpa using List.splitOn_eq_singleton htext
  | cons field fields ih =>
    obtain ⟨⟨hname, htype⟩, hrest⟩ := List.forall_mem_cons.mp h
    have hfree : ',' ∉ ' ' :: fieldText field := by
      simpa using comma_notMem_fieldText hname htype
    rw [List.flatMap_cons, List.cons_append, List.splitOn_append_cons_self_of_not_mem htext,
      ih hfree hrest, List.map_cons]

theorem listed_render (h : FieldTypes.Plain fields) :
    listed (FieldTypes.render fields).toList = fields.map fieldText := by
  cases fields with
  | nil => rfl
  | cons field fields =>
    obtain ⟨⟨hname, htype⟩, hrest⟩ := List.forall_mem_cons.mp h
    have htrim : fields.map (Text.trim ∘ fun field => ' ' :: fieldText field) =
        fields.map fieldText := by
      refine List.map_congr_left fun other hother => ?_
      obtain ⟨hname', htype'⟩ := hrest other hother
      rw [Function.comp, Text.trim_space, trim_fieldText hname' htype']
    rw [listed, toList_render_cons, splitOn_fields (comma_notMem_fieldText hname htype) hrest,
      List.map_cons, List.map_map, trim_fieldText hname htype, htrim, ← List.map_cons,
      List.filter_eq_self]
    intro text hmem
    obtain ⟨other, -, rfl⟩ := List.mem_map.mp hmem
    simp [fieldText]

theorem fieldTypes_render (h : FieldTypes.Plain fields) :
    fieldTypes (FieldTypes.render fields).toList = .ok fields := by
  rw [fieldTypes, listed_render h, mapM_eq_ok, List.forall₂_map_left_iff, List.forall₂_same]
  intro field hmem
  obtain ⟨hname, htype⟩ := h field hmem
  exact fieldType_fieldText hname htype

end Program

end TreeFacts
