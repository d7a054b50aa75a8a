import Mathlib.Data.List.Nodup
import Mathlib.Data.List.Pairwise
import TreeFacts.Program.Component
import TreeFacts.Proofs.Program.Statement

namespace TreeFacts.Program

/-- Text inside a statement has no point and no slash in it. -/
def Inner (cs : List Char) : Prop := ∀ c ∈ cs, c ≠ '.' ∧ c ≠ '/'

@[simp] theorem inner_nil : Inner [] := by simp [Inner]

@[simp] theorem inner_cons {c : Char} {cs : List Char} :
    Inner (c :: cs) ↔ (c ≠ '.' ∧ c ≠ '/') ∧ Inner cs := List.forall_mem_cons

@[simp] theorem inner_append {cs ds : List Char} : Inner (cs ++ ds) ↔ Inner cs ∧ Inner ds :=
  List.forall_mem_append

theorem IsName.inner {name : String} (h : IsName name) : Inner name.toList := by
  intro c hc
  have hname := h.isNameChar hc
  constructor <;> rintro rfl <;> exact absurd hname (by decide)

theorem inner_render {fields : FieldTypes} (h : FieldTypes.Plain fields) :
    Inner (FieldTypes.render fields).toList := by
  intro c hc
  have hfields := mem_render h hc
  constructor <;> rintro rfl <;> exact absurd hfields (by decide)

theorem typeDef_inner {d : TypeDef} (h : d.Plain) :
    ∃ tail, d.render.toList = '.' :: 't' :: tail ∧ Inner tail := by
  have hbranch {b : Branch} (hb : b.Plain) : Inner (branchText b) := by
    simp [branchText, hb.1.inner, inner_render hb.2]
  cases d with
  | subtype name base =>
    refine ⟨_, (toList_subtype name base).trans rfl, ?_⟩
    simp [h.1.inner, h.2.isName.inner]
  | record name fields =>
    refine ⟨_, (toList_record name fields).trans rfl, ?_⟩
    simp [h.1.inner, inner_render h.2]
  | union name branches =>
    obtain ⟨hname, hne, hbranches⟩ := h
    obtain ⟨b, branches, rfl⟩ := List.exists_cons_of_ne_nil hne
    have hmore : Inner (branches.flatMap fun b => ' ' :: '|' :: ' ' :: branchText b) := by
      intro c hc
      obtain ⟨b, hb, hc⟩ := List.mem_flatMap.mp hc
      have hinner : Inner (' ' :: '|' :: ' ' :: branchText b) := by
        simp [hbranch (hbranches b (List.mem_cons_of_mem _ hb))]
      exact hinner c hc
    refine ⟨_, (toList_union name b branches).trans rfl, ?_⟩
    simp [hname.inner, hbranch (hbranches b List.mem_cons_self), hmore]

theorem declaration_inner {r : Relation} (h : r.Plain) :
    ∃ tail, r.render.toList = '.' :: 'd' :: tail ∧ Inner tail := by
  refine ⟨_, (toList_declaration r).trans rfl, ?_⟩
  simp [h.1.inner, inner_render h.2]

/-- A part of a program's text with at most one point in it, which it begins with. -/
inductive Piece where
  | filler (cs : List Char)
  /-- the end of a rule -/
  | stop
  | type (d : TypeDef)
  | declaration (r : Relation)

namespace Piece

def text : Piece → List Char
  | filler cs => cs
  | stop => ['.', '\n']
  | type d => d.render.toList ++ ['\n']
  | declaration r => r.render.toList ++ ['\n']

def type? : Piece → Option TypeDef
  | type d => some d
  | _ => none

def declaration? : Piece → Option Relation
  | declaration r => some r
  | _ => none

def Plain : Piece → Prop
  | filler cs => cs ≠ [] ∧ Inner cs ∧ (skipBlanks cs).head? ≠ some '|'
  | stop => True
  | type d => d.Plain
  | declaration r => r.Plain

/-- The letter behind the point that a piece begins with. -/
def lead? : Piece → Option Char
  | filler _ => none
  | stop => some '\n'
  | type _ => some 't'
  | declaration _ => some 'd'

/-- Pieces with the positions at which they begin. -/
def starts : Nat → List Piece → List (Nat × Piece)
  | _, [] => []
  | n, p :: ps => (n, p) :: starts (n + p.text.length) ps

theorem text_cases {p : Piece} (h : p.Plain) :
    (p.lead? = none ∧ p.text ≠ [] ∧ Inner p.text) ∨
      ∃ letter tail, p.lead? = some letter ∧ p.text = '.' :: letter :: tail ∧
        Inner (letter :: tail) := by
  cases p with
  | filler cs => exact Or.inl ⟨rfl, h.1, h.2.1⟩
  | stop => exact Or.inr ⟨'\n', [], rfl, rfl, by simp⟩
  | type d =>
    obtain ⟨tail, htext, hinner⟩ := typeDef_inner h
    refine Or.inr ⟨'t', tail ++ ['\n'], rfl, ?_, by simp [hinner]⟩
    rw [text, htext]
    rfl
  | declaration r =>
    obtain ⟨tail, htext, hinner⟩ := declaration_inner h
    refine Or.inr ⟨'d', tail ++ ['\n'], rfl, ?_, by simp [hinner]⟩
    rw [text, htext]
    rfl

theorem exists_cons_text {p : Piece} (h : p.Plain) :
    ∃ c cs, p.text = c :: cs ∧ Inner cs ∧ (c = '.' → cs ≠ []) := by
  rcases text_cases h with ⟨-, hne, hinner⟩ | ⟨letter, tail, -, htext, hinner⟩
  · obtain ⟨c, cs, htext⟩ := List.exists_cons_of_ne_nil hne
    rw [htext] at hinner
    obtain ⟨⟨hpoint, -⟩, hcs⟩ := inner_cons.mp hinner
    exact ⟨c, cs, htext, hcs, fun heq => absurd heq hpoint⟩
  · exact ⟨'.', letter :: tail, htext, hinner, fun _ => by simp⟩

/-- No text of pieces can be the continuation of a union. -/
theorem head?_skipBlanks {ps : List Piece} (hps : ∀ p ∈ ps, p.Plain) :
    (skipBlanks (ps.flatMap text)).head? ≠ some '|' := by
  have hpoint : Text.isBlank '.' = false := by decide
  induction ps with
  | nil => simp [skipBlanks]
  | cons p ps ih =>
    obtain ⟨hp, hmore⟩ := List.forall_mem_cons.mp hps
    have hrest := ih hmore
    rw [List.flatMap_cons]
    cases p with
    | filler cs =>
      obtain ⟨-, -, hbar⟩ := hp
      rw [text, skipBlanks, List.dropWhile_append]
      split
      next => exact hrest
      next hcs =>
        rw [List.head?_append_of_ne_nil _ (by simpa using hcs)]
        exact hbar
    | stop => simp [text, skipBlanks_of_not_isBlank hpoint]
    | type d =>
      obtain ⟨tail, htext, -⟩ := typeDef_inner hp
      simp [text, htext, skipBlanks_of_not_isBlank hpoint]
    | declaration r =>
      obtain ⟨tail, htext, -⟩ := declaration_inner hp
      simp [text, htext, skipBlanks_of_not_isBlank hpoint]

end Piece

open Piece

variable {α β : Type} {recognise : Recogniser α} {read : Piece → Option α} {letter : Char}
  {p : Piece} {ps : List Piece}

theorem LedBy.eq_none_of_lead? {recognise : List Char → Option β} (hled : LedBy letter recognise)
    (hp : p.Plain) (hlead : p.lead? ≠ some letter) (rest : List Char) :
    recognise (p.text ++ rest) = none := by
  refine hled.eq_none fun after heq => ?_
  rcases text_cases hp with ⟨-, hne, hinner⟩ | ⟨other, tail, hother, htext, -⟩
  · obtain ⟨c, cs, htext⟩ := List.exists_cons_of_ne_nil hne
    rw [htext] at heq hinner
    exact (inner_cons.mp hinner).1.1 (List.cons.inj heq).1
  · rw [htext] at heq
    have hsame : other = letter := (List.cons.inj (List.cons.inj heq).2).1
    exact hlead (hsame ▸ hother)

theorem findAllFrom_append (hled : LedBy letter recognise) {cs : List Char} (h : Inner cs)
    (n : Nat) (rest : List Char) :
    findAllFrom recognise n (cs ++ rest) = findAllFrom recognise (n + cs.length) rest := by
  induction cs generalizing n with
  | nil => rfl
  | cons c cs ih =>
    obtain ⟨⟨hpoint, -⟩, hinner⟩ := inner_cons.mp h
    have hnone : recognise (c :: (cs ++ rest)) = none :=
      hled.eq_none fun _ heq => hpoint (List.cons.inj heq).1
    rw [List.cons_append, findAllFrom, hnone]
    simp only
    rw [ih hinner, List.length_cons, Nat.add_assoc, Nat.add_comm 1]

/-- A form of statement is recognised where a piece of that form begins, and nowhere else. -/
structure Scans (recognise : Recogniser α) (read : Piece → Option α) : Prop where
  led : ∃ letter, LedBy letter recognise
  reads : ∀ {p : Piece}, p.Plain → ∀ {rest : List Char}, (skipBlanks rest).head? ≠ some '|' →
    recognise (p.text ++ rest) = (read p).map (·, '\n' :: rest)

theorem scans_none (hled : LedBy letter recognise) (hletter : letter ∉ ['\n', 't', 'd']) :
    Scans recognise fun _ => none where
  led := ⟨letter, hled⟩
  reads {p} hp rest _ := by
    refine hled.eq_none_of_lead? hp (fun hlead => ?_) rest
    cases p <;> simp [lead?, eq_comm] at hlead hletter <;> tauto

theorem scans_type {read : TypeDef → Option α} (hled : LedBy 't' recognise)
    (h : ∀ {d : TypeDef}, d.Plain → ∀ {rest : List Char},
      (skipBlanks ('\n' :: rest)).head? ≠ some '|' →
        recognise (d.render.toList ++ '\n' :: rest) = (read d).map (·, '\n' :: rest)) :
    Scans recognise fun p => p.type?.bind read where
  led := ⟨'t', hled⟩
  reads {p} hp rest hrest := by
    cases p with
    | type d =>
      have hbreak : skipBlanks ('\n' :: rest) = skipBlanks rest :=
        skipBlanks_of_isBlank (by decide) rest
      rw [text, List.append_assoc]
      exact h hp (hbreak ▸ hrest)
    | filler | stop | declaration => exact hled.eq_none_of_lead? hp (by simp [lead?]) rest

theorem subtype?_scans : Scans subtype? fun p => p.type?.bind subtypeOf? :=
  scans_type subtype?_ledBy fun hd _ _ => subtype?_render hd _

theorem record?_scans : Scans record? fun p => p.type?.bind recordOf? :=
  scans_type record?_ledBy fun hd _ _ => record?_render hd _

theorem union?_scans : Scans union? fun p => p.type?.bind unionOf? :=
  scans_type union?_ledBy fun hd _ hrest => union?_render hd hrest

theorem declaration?_scans : Scans declaration? fun p =>
    p.declaration?.map fun r => (r.name, (FieldTypes.render r.columns).toList) where
  led := ⟨'d', declaration?_ledBy⟩
  reads {p} hp rest _ := by
    cases p with
    | declaration r =>
      rw [text, List.append_assoc]
      exact declaration?_render hp _
    | filler | stop | type => exact declaration?_ledBy.eq_none_of_lead? hp (by simp [lead?]) rest

theorem outputs?_scans : Scans outputs? fun _ => none := scans_none outputs?_ledBy (by decide)

theorem init?_scans : Scans init? fun _ => none := scans_none init?_ledBy (by decide)

/-- What is read where something stands, with its position. -/
def located? (read : β → Option α) (entry : Nat × β) : Option (Nat × α) :=
  (read entry.2).map (entry.1, ·)

/-- In the text of pieces a form of statement is found at the pieces of that form, in order. -/
theorem Scans.findAllFrom_eq (hs : Scans recognise read) (hps : ∀ p ∈ ps, p.Plain) (n : Nat) :
    findAllFrom recognise n (ps.flatMap text) = (starts n ps).filterMap (located? read) := by
  obtain ⟨letter, hled⟩ := hs.led
  induction ps generalizing n with
  | nil => simp [findAllFrom, starts]
  | cons p ps ih =>
    obtain ⟨hp, hmore⟩ := List.forall_mem_cons.mp hps
    have hreads := hs.reads hp (head?_skipBlanks hmore)
    obtain ⟨c, cs, htext, hinner, hlong⟩ := exists_cons_text hp
    rw [List.flatMap_cons, starts, List.filterMap_cons, ← ih hmore, located?]
    rw [htext, List.cons_append] at hreads
    rw [htext, List.cons_append, findAllFrom, hreads]
    cases hread : read p with
    | none =>
      -- No other place of the piece has a point to begin at.
      simp only [Option.map_none]
      rw [findAllFrom_append hled hinner, List.length_cons, Nat.add_assoc, Nat.add_comm 1]
    | some found =>
      -- What is found ends before the line break of its piece, where the search goes on.
      rw [hread, Option.map_some] at hreads
      obtain ⟨after, hafter⟩ := hled _ _ hreads
      have hcs : 0 < cs.length := List.length_pos_iff.mpr (hlong (List.cons.inj hafter).1)
      have hshorter : ('\n' :: ps.flatMap text).length < (c :: (cs ++ ps.flatMap text)).length := by
        simp only [List.length_cons, List.length_append]
        omega
      have hskip (m : Nat) : findAllFrom recognise m ('\n' :: ps.flatMap text) =
          findAllFrom recognise (m + 1) (ps.flatMap text) := by
        have hbreak : Inner ['\n'] := by simp
        exact findAllFrom_append hled hbreak m (ps.flatMap text)
      have hend : n + ((c :: (cs ++ ps.flatMap text)).length - ('\n' :: ps.flatMap text).length) + 1 =
          n + (c :: cs).length := by
        simp only [List.length_cons, List.length_append]
        omega
      simp only [Option.map_some]
      rw [if_pos hshorter, hskip, hend]

/-- No component begins in the text of pieces. -/
theorem firstHeader?_eq_none (hps : ∀ p ∈ ps, p.Plain) : firstHeader? (ps.flatMap text) = none := by
  have hled : LedBy 'c' header? := (keyword?_ledBy rfl : LedBy 'c' (keyword? ".comp")).bind _
  have hskip {cs rest : List Char} (hcs : Inner cs) (hrest : firstHeader? rest = none) :
      firstHeader? (cs ++ rest) = none := by
    induction cs with
    | nil => exact hrest
    | cons c cs ih =>
      obtain ⟨⟨hpoint, -⟩, hinner⟩ := inner_cons.mp hcs
      have hnone : header? (c :: (cs ++ rest)) = none :=
        hled.eq_none fun _ heq => hpoint (List.cons.inj heq).1
      rw [List.cons_append, firstHeader?, hnone]
      simp only
      rw [ih hinner, Option.map_none]
  induction ps with
  | nil => rfl
  | cons p ps ih =>
    obtain ⟨hp, hmore⟩ := List.forall_mem_cons.mp hps
    obtain ⟨c, cs, htext, hinner, -⟩ := exists_cons_text hp
    have hlead : p.lead? ≠ some 'c' := by cases p <;> simp [lead?]
    have hnone := hled.eq_none_of_lead? hp hlead (ps.flatMap text)
    rw [htext, List.cons_append] at hnone
    rw [List.flatMap_cons, htext, List.cons_append, firstHeader?, hnone]
    simp only
    rw [hskip hinner (ih hmore), Option.map_none]

end TreeFacts.Program
