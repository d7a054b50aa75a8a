import TreeFacts.Proofs.Fact.Reading
import TreeFacts.Proofs.Fact.Splitting

namespace TreeFacts

namespace FactValue

/-- The text of a value that is a field of its own, without quotes around it. -/
def fieldText : FactValue → String
  | number n => Text.showInt64 n
  | symbol s => s
  | v => v.render

/-- A value as a field of a table: only numbers stand without quotes. -/
def field (v : FactValue) : Table.Field := ⟨v.fieldText, v.number?.isNone⟩

end FactValue

namespace Table

theorem renderField_eq (v : FactValue) : renderField v = v.field.written := by
  cases v <;> rfl

theorem level_of_isNumeralChar {depth : Nat} {s : List Char}
    (h : ∀ c ∈ s, FactValue.isNumeralChar c = true) : Level depth s := by
  refine Level.of_forall fun c hc => ?_
  have hnumeral := h c hc
  have hother {d : Char} (hd : FactValue.isNumeralChar d = false) : c ≠ d := by
    rintro rfl
    rw [hd] at hnumeral
    cases hnumeral
  have hcomma : c ≠ ',' := hother (by decide)
  have hline : c ≠ '\n' := hother (by decide)
  have hreturn : c ≠ '\r' := hother (by decide)
  have hsquare : c ≠ '[' ∧ c ≠ ']' := ⟨hother (by decide), hother (by decide)⟩
  have hround : c ≠ '(' ∧ c ≠ ')' := ⟨hother (by decide), hother (by decide)⟩
  simp [isSeparator, isOpening, isClosing, hcomma, hline, hreturn, hsquare, hround]

theorem head?_showInt64 (n : Int64) :
    ∃ c cs, (Text.showInt64 n).toList = c :: cs ∧ FactValue.isNumeralChar c = true := by
  obtain ⟨c, cs, hc, -⟩ := (FactValue.number n).render_first
  have htext : (Text.showInt64 n).toList = c :: cs := hc
  refine ⟨c, cs, htext, FactValue.isNumeralChar_of_mem_showInt64 (n := n) ?_⟩
  rw [htext]
  exact List.mem_cons_self

theorem field_kept (v : FactValue) : v.field.Kept := by
  intro hquoted
  cases v with
  | number n =>
    obtain ⟨c, cs, hcs, hc⟩ := head?_showInt64 n
    have htext : (FactValue.number n).field.text.toList = c :: cs := hcs
    refine ⟨?_, level_of_isNumeralChar fun d hd => FactValue.isNumeralChar_of_mem_showInt64 hd⟩
    rw [htext, List.head?_cons]
    rintro ⟨⟩
    exact absurd hc (by decide)
  | symbol | nil | record | branch => cases hquoted

theorem field_place_ne_start (v : FactValue) : v.field.place ≠ .start := by
  cases v with
  | number n =>
    obtain ⟨c, cs, hcs, -⟩ := head?_showInt64 n
    have htext : Text.showInt64 n ≠ "" := by
      intro h
      rw [h] at hcs
      cases hcs
    have hplace : (FactValue.number n).field.place = .bare := if_neg htext
    rw [hplace]
    decide
  | symbol | nil | record | branch =>
    rw [Field.place_of_quoted rfl]
    decide

theorem renderRow_eq (t : Tuple) : renderRow t = rowText (t.map FactValue.field) ++ "\n" := by
  have hfields : t.map renderField = (t.map FactValue.field).map Field.written := by
    rw [List.map_map]
    exact List.map_congr_left fun v _ => renderField_eq v
  rw [renderRow, hfields]
  rfl

theorem splitRows_renderRow (t : Tuple) (cs : List Char) :
    splitRows .start 0 [] [] ((renderRow t).toList ++ cs) =
      if t = [] then splitRows .start 0 [] [] cs
      else (splitRows .start 0 [] [] cs).map (t.map FactValue.fieldText :: ·) := by
  rw [renderRow_eq, String.toList_append, List.append_assoc]
  cases t with
  | nil => exact splitRows_emptyLine .feed cs
  | cons v t =>
    have hkept : ∀ f ∈ v.field :: t.map FactValue.field, f.Kept := by
      rw [← List.map_cons]
      intro f hf
      obtain ⟨w, -, rfl⟩ := List.mem_map.mp hf
      exact field_kept w
    have hseen : ([] : List String) ≠ [] ∨ t.map FactValue.field ≠ [] ∨ v.field.place ≠ .start :=
      Or.inr (Or.inr (field_place_ne_start v))
    have hrow := splitRows_row (endsRow_line .feed cs) hkept hseen
    have htexts : (v.field :: t.map FactValue.field).map (·.text) =
        (v :: t).map FactValue.fieldText := by
      rw [← List.map_cons, List.map_map]
      rfl
    rw [htexts] at hrow
    exact hrow

/-- A rendered table splits into the texts of its tuples, of which those without values leave no
row. -/
theorem parse_render (tuples : List Tuple) :
    parse (render tuples) =
      .ok ((tuples.filter fun t => !t.isEmpty).map fun t => t.map FactValue.fieldText) := by
  rw [parse, render, String.toList_join, List.flatMap_map]
  induction tuples with
  | nil => rfl
  | cons t tuples ih =>
    rw [List.flatMap_cons, splitRows_renderRow, ih]
    cases t with
    | nil => simp
    | cons v t => simp

end Table

end TreeFacts
