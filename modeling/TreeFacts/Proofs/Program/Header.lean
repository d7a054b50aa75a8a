import TreeFacts.Proofs.Program.Balance

namespace TreeFacts.Program

/-- Nothing but blanks. -/
def IsGap (gap : List Char) : Prop := ∀ c ∈ gap, Text.isBlank c = true

/-- The parameters of a component, which may be left out. -/
inductive IsParams : List Char → Prop where
  | none : IsParams []
  | listed {gap params : List Char} (hgap : IsGap gap) (hparams : '>' ∉ params) :
    IsParams (gap ++ '<' :: params ++ ['>'])

/-- The bases of a component, which may be left out. -/
inductive IsBases : List Char → Prop where
  | none : IsBases []
  | listed {bases : List Char} (hbases : '\x7b' ∉ bases) : IsBases (':' :: bases)

/-- The header of a component through the brace that opens the body: the keyword, a name,
parameters and bases. -/
inductive IsHeader : List Char → Prop where
  | mk {gap gap' params bases : List Char} {name : String} (hgap : IsGap gap) (hne : gap ≠ [])
    (hname : IsName name) (hparams : IsParams params) (hgap' : IsGap gap')
    (hbases : IsBases bases) :
    IsHeader (".comp".toList ++ gap ++ name.toList ++ params ++ gap' ++ bases ++ ['\x7b'])

variable {cs rest inner text gap : List Char} {name word : String} {params : List String}

theorem exists_gap (cs : List Char) : ∃ gap, IsGap gap ∧ cs = gap ++ skipBlanks cs :=
  ⟨cs.takeWhile Text.isBlank, fun _ hc => List.all_eq_true.mp List.all_takeWhile _ hc,
    List.takeWhile_append_dropWhile.symm⟩

theorem skipBlanks_gap (hgap : IsGap gap) (hrest : ∀ c ∈ rest.head?, Text.isBlank c = false) :
    skipBlanks (gap ++ rest) = rest := Text.dropWhile_run hgap hrest

theorem keyword?_sound (h : keyword? word cs = some rest) :
    ∃ gap, IsGap gap ∧ gap ≠ [] ∧ cs = word.toList ++ gap ++ rest := by
  obtain ⟨after, hafter, h⟩ := Option.bind_eq_some_iff.mp h
  obtain ⟨_, hguard, heq⟩ := Option.bind_eq_some_iff.mp h
  cases heq
  have hne : (after.takeWhile Text.isBlank).length ≠ 0 := by
    by_contra hzero
    rw [guard, if_neg (not_not_intro hzero)] at hguard
    cases hguard
  refine ⟨after.takeWhile Text.isBlank, ?_, fun hnil => hne (by rw [hnil]; rfl), ?_⟩
  · exact fun _ hc => List.all_eq_true.mp List.all_takeWhile _ hc
  · rw [List.append_assoc, skipBlanks, List.takeWhile_append_dropWhile]
    exact Text.dropFront?_eq_some.mp hafter

theorem keyword?_complete (hgap : IsGap gap) (hne : gap ≠ [])
    (hrest : ∀ c ∈ rest.head?, Text.isBlank c = false) :
    keyword? word (word.toList ++ gap ++ rest) = some rest := by
  obtain ⟨blank, blanks, rfl⟩ := List.exists_cons_of_ne_nil hne
  rw [List.append_assoc, List.cons_append, keyword?_blank word (hgap blank List.mem_cons_self),
    skipBlanks_gap (fun c hc => hgap c (List.mem_cons_of_mem _ hc)) hrest]

theorem angled_sound (cs : List Char) :
    ∃ params, IsParams params ∧ cs = params ++ (angled cs).2 := by
  unfold angled
  split
  next => exact ⟨[], .none, rfl⟩
  next inner hinner =>
    split
    next text rest hrest =>
      obtain ⟨hstop, hcut⟩ := before?_sound hrest
      obtain ⟨gap, hgap, hcs⟩ := exists_gap cs
      refine ⟨gap ++ '<' :: text ++ ['>'], .listed hgap hstop, ?_⟩
      rw [hcs, Text.dropFront?_eq_some.mp hinner, hcut]
      simp
    next => exact ⟨[], .none, rfl⟩

theorem angled_complete {params : List Char} (hparams : IsParams params)
    (hrest : (skipBlanks rest).head? ≠ some '<') : (angled (params ++ rest)).2 = rest := by
  cases hparams with
  | none =>
    have hnone : Text.dropFront? ['<'] (skipBlanks rest) = none := by
      cases hskip : skipBlanks rest with
      | nil => rfl
      | cons c cs =>
        rw [hskip] at hrest
        exact Text.dropFront?_cons_of_ne (fun heq => hrest (by rw [heq]; rfl)) _ _
    rw [List.nil_append, angled, hnone]
  | @listed gap params hgap hparams =>
    have hopen : ∀ c ∈ ('<' :: (params ++ '>' :: rest)).head?, Text.isBlank c = false := by
      rintro c ⟨⟩
      decide
    have hcs : gap ++ '<' :: params ++ ['>'] ++ rest = gap ++ '<' :: (params ++ '>' :: rest) := by
      simp
    rw [hcs, angled, skipBlanks_gap hgap hopen, Text.dropFront?_singleton]
    simp only [before?_append hparams rest]

theorem bases?_sound {header : Header} (h : bases? name params cs = some (header, inner)) :
    ∃ gap bases, IsGap gap ∧ IsBases bases ∧ cs = gap ++ bases ++ '\x7b' :: inner := by
  obtain ⟨gap, hgap, hcs⟩ := exists_gap cs
  unfold bases? at h
  cases hcolon : Text.dropFront? [':'] (skipBlanks cs) with
  | none =>
    rw [hcolon] at h
    obtain ⟨rest, hrest, heq⟩ := Option.bind_eq_some_iff.mp h
    cases heq
    refine ⟨gap, [], hgap, .none, ?_⟩
    rw [hcs, Text.dropFront?_eq_some.mp hrest]
    simp
  | some rest =>
    rw [hcolon] at h
    obtain ⟨⟨bases, rest'⟩, hrest, heq⟩ := Option.bind_eq_some_iff.mp h
    cases heq
    obtain ⟨hstop, hcut⟩ := before?_sound hrest
    refine ⟨gap, ':' :: bases, hgap, .listed hstop, ?_⟩
    rw [hcs, Text.dropFront?_eq_some.mp hcolon, hcut]
    simp

theorem bases?_complete {bases : List Char} (hgap : IsGap gap) (hbases : IsBases bases)
    (name : String) (params : List String) (inner : List Char) :
    ∃ header, bases? name params (gap ++ bases ++ '\x7b' :: inner) = some (header, inner) := by
  cases hbases with
  | none =>
    have hopen : ∀ c ∈ ('\x7b' :: inner).head?, Text.isBlank c = false := by
      rintro c ⟨⟩
      decide
    unfold bases?
    rw [List.append_nil, skipBlanks_gap hgap hopen, Text.dropFront?_cons_of_ne (by decide),
      Text.dropFront?_singleton]
    exact ⟨_, rfl⟩
  | @listed bases hbases =>
    have hcolon : ∀ c ∈ (':' :: (bases ++ '\x7b' :: inner)).head?, Text.isBlank c = false := by
      rintro c ⟨⟩
      decide
    unfold bases?
    rw [List.append_assoc, List.cons_append, skipBlanks_gap hgap hcolon,
      Text.dropFront?_singleton]
    simp only [before?_append hbases inner]
    exact ⟨_, rfl⟩

theorem isHeader_of_header? {header : Header} (h : header? cs = some (header, inner)) :
    ∃ head, IsHeader head ∧ cs = head ++ inner := by
  rw [header?_eq] at h
  obtain ⟨afterKeyword, hkeyword, h⟩ := Option.bind_eq_some_iff.mp h
  obtain ⟨⟨name, afterName⟩, hname, h⟩ := Option.bind_eq_some_iff.mp h
  obtain ⟨gap, hgap, hne, hcs⟩ := keyword?_sound hkeyword
  obtain ⟨hname, hafterKeyword⟩ := name?_sound hname
  obtain ⟨params, hparams, hafterName⟩ := angled_sound afterName
  obtain ⟨gap', bases, hgap', hbases, hafterParams⟩ := bases?_sound h
  refine ⟨_, .mk hgap hne hname hparams hgap' hbases, ?_⟩
  rw [hcs, hafterKeyword, hafterName, hafterParams]
  simp

/-- A name ends in front of a blank or a sign. -/
theorem isNameChar_head? (hgap : IsGap gap) {sign : Char} (hsign : isNameChar sign = false)
    (more : List Char) : ∀ c ∈ (gap ++ sign :: more).head?, isNameChar c = false := by
  intro c hc
  cases gap with
  | nil =>
    cases hc
    exact hsign
  | cons d gap =>
    have hblank : Text.isBlank d = true := hgap d List.mem_cons_self
    cases hc
    by_contra hword
    rw [isBlank_of_isNameChar (by simpa using hword)] at hblank
    cases hblank

/-- Behind the parameters stands a colon or the brace, which no name and no list begins with. -/
theorem IsBases.exists_sign {bases : List Char} (h : IsBases bases) (inner : List Char) :
    ∃ sign more, bases ++ '\x7b' :: inner = sign :: more ∧ isNameChar sign = false ∧
      Text.isBlank sign = false ∧ sign ≠ '<' := by
  cases h with
  | none => exact ⟨'\x7b', inner, rfl, by decide, by decide, by decide⟩
  | listed _ => exact ⟨':', _, rfl, by decide, by decide, by decide⟩

theorem IsName.isBlank_head? (h : IsName name) (rest : List Char) :
    ∀ c ∈ (name.toList ++ rest).head?, Text.isBlank c = false := by
  obtain ⟨first, others, hcons, hfirst, -⟩ := h.exists_cons
  rw [hcons]
  rintro c ⟨⟩
  exact isBlank_of_isNameStart hfirst

theorem header?_of_isHeader {head : List Char} (h : IsHeader head) (inner : List Char) :
    ∃ header, header? (head ++ inner) = some (header, inner) := by
  cases h with
  | @mk gap gap' params bases name hgap hne hname hparams hgap' hbases =>
    obtain ⟨sign, more, hmore, hword, hblank, hbracket⟩ := hbases.exists_sign inner
    have hskip : skipBlanks (gap' ++ sign :: more) = sign :: more := by
      refine skipBlanks_gap hgap' fun c hc => ?_
      cases hc
      exact hblank
    have hangled : (angled (params ++ (gap' ++ sign :: more))).2 = gap' ++ sign :: more := by
      apply angled_complete hparams
      rw [hskip]
      exact fun heq => hbracket (Option.some.inj heq)
    have hstop : ∀ c ∈ (params ++ (gap' ++ sign :: more)).head?, isNameChar c = false := by
      cases hparams with
      | none => exact isNameChar_head? hgap' hword more
      | @listed gap params hgap _ =>
        rw [List.append_assoc, List.append_assoc]
        exact isNameChar_head? hgap (by decide) _
    obtain ⟨header, hheader⟩ := bases?_complete hgap' hbases name
      (paramNames (angled (params ++ (gap' ++ sign :: more))).1) inner
    rw [List.append_assoc, hmore] at hheader
    have hwhole : ".comp".toList ++ gap ++ name.toList ++ params ++ gap' ++ bases ++ ['\x7b'] ++
        inner = ".comp".toList ++ gap ++ (name.toList ++ (params ++ (gap' ++ sign :: more))) := by
      rw [← hmore]
      simp
    refine ⟨header, ?_⟩
    rw [header?_eq, hwhole]
    simp only
    rw [keyword?_complete hgap hne (hname.isBlank_head? _), Option.bind_some,
      name?_append hname hstop, Option.bind_some, hangled]
    exact hheader

/-- The header that begins first in a text, with what stands in front of it and behind it. -/
structure FirstHeader (cs before head inner : List Char) : Prop where
  isHeader : IsHeader head
  text : cs = before ++ (head ++ inner)
  first : ∀ front head' inner', cs = front ++ (head' ++ inner') → IsHeader head' →
    before.length ≤ front.length

variable {before head : List Char} {c : Char} {header : Header}

theorem firstHeader?_none (h : firstHeader? cs = none) (front : List Char) {head inner : List Char}
    (hcs : cs = front ++ (head ++ inner)) : ¬IsHeader head := by
  intro hhead
  induction cs generalizing front with
  | nil =>
    have hempty : head ++ inner = [] := (List.append_eq_nil_iff.mp hcs.symm).2
    obtain ⟨header, hheader⟩ := header?_of_isHeader hhead inner
    rw [hempty] at hheader
    cases hheader
  | cons c cs ih =>
    rw [firstHeader?] at h
    cases hheader : header? (c :: cs) with
    | some p =>
      rw [hheader] at h
      cases h
    | none =>
      rw [hheader] at h
      have hrest : firstHeader? cs = none := Option.map_eq_none_iff.mp h
      cases front with
      | nil =>
        obtain ⟨header, hfound⟩ := header?_of_isHeader hhead inner
        rw [hcs, List.nil_append, hfound] at hheader
        cases hheader
      | cons d front =>
        exact ih hrest front (List.cons.inj hcs).2

theorem firstHeader?_sound (h : firstHeader? cs = some (before, header, inner)) :
    ∃ head, FirstHeader cs before head inner := by
  induction cs generalizing before with
  | nil => cases h
  | cons c cs ih =>
    rw [firstHeader?] at h
    cases hheader : header? (c :: cs) with
    | some p =>
      rw [hheader] at h
      cases h
      obtain ⟨head, hhead, htext⟩ := isHeader_of_header? hheader
      exact ⟨head, hhead, htext, fun _ _ _ _ _ => Nat.zero_le _⟩
    | none =>
      rw [hheader] at h
      obtain ⟨⟨before, found⟩, hfound, heq⟩ := Option.map_eq_some_iff.mp h
      cases heq
      obtain ⟨head, hhead, htext, hfirst⟩ := ih hfound
      refine ⟨head, hhead, by rw [htext]; rfl, fun front head' inner' hcs hhead' => ?_⟩
      cases front with
      | nil =>
        obtain ⟨header, hfound⟩ := header?_of_isHeader hhead' inner'
        rw [hcs, List.nil_append, hfound] at hheader
        cases hheader
      | cons d front =>
        have hless := hfirst front head' inner' (List.cons.inj hcs).2 hhead'
        simp only [List.length_cons]
        omega

theorem FirstHeader.found (h : FirstHeader cs before head inner) :
    ∃ header, firstHeader? cs = some (before, header, inner) := by
  obtain ⟨hhead, htext, hfirst⟩ := h
  induction before generalizing cs with
  | nil =>
    obtain ⟨header, hheader⟩ := header?_of_isHeader hhead inner
    rw [htext, List.nil_append]
    cases hcs : head ++ inner with
    | nil =>
      rw [hcs] at hheader
      cases hheader
    | cons c cs =>
      rw [hcs] at hheader
      exact ⟨header, by rw [firstHeader?, hheader]⟩
  | cons c before ih =>
    have hlater : header? cs = none := by
      cases hheader : header? cs with
      | none => rfl
      | some p =>
        obtain ⟨head', hhead', hcs⟩ := isHeader_of_header? hheader
        have hless := hfirst [] head' p.2 hcs hhead'
        simp at hless
    obtain ⟨header, hheader⟩ := ih rfl fun front head' inner' hcs hhead' => by
      have hless := hfirst (c :: front) head' inner' (by rw [htext, List.cons_append, hcs]; rfl)
        hhead'
      simp only [List.length_cons] at hless
      omega
    rw [htext] at hlater ⊢
    refine ⟨header, ?_⟩
    rw [List.cons_append] at hlater ⊢
    rw [firstHeader?, hlater, hheader]
    rfl

/-- A header is met in a text if it is the first, or is met behind the body of the first and the
brace that closes it. -/
inductive Meets : List Char → List Char → Prop where
  | first {cs before head inner : List Char} (h : FirstHeader cs before head inner) : Meets cs inner
  | behind {cs before head body rest inner : List Char}
    (h : FirstHeader cs before head (body ++ '\x7d' :: rest)) (hbody : Balanced body)
    (hrest : Meets rest inner) : Meets cs inner

theorem Meets.unclosed (h : Meets cs inner)
    (hunclosed : ∀ body rest, Balanced body → inner ≠ body ++ '\x7d' :: rest) :
    ∃ cut ∈ (cuts cs.length cs).1, cut.body = none := by
  induction h with
  | @first cs before head inner h =>
    obtain ⟨header, hheader⟩ := h.found
    have hnone : body? .outside 1 inner = none := by
      cases hbody : body? .outside 1 inner with
      | none => rfl
      | some p =>
        obtain ⟨hinner, hbalanced⟩ := body?_eq_some_iff.mp hbody
        exact absurd hinner (hunclosed p.1 p.2 hbalanced)
    rw [cuts_unclosed hheader hnone]
    exact ⟨_, List.mem_singleton_self _, rfl⟩
  | @behind cs before head body rest inner h hbody _ ih =>
    obtain ⟨header, hheader⟩ := h.found
    have hfound : body? .outside 1 (body ++ '\x7d' :: rest) = some (body, rest) :=
      body?_eq_some_iff.mpr ⟨rfl, hbody⟩
    obtain ⟨cut, hcut, hnone⟩ := ih hunclosed
    rw [cuts_cons hheader hfound]
    exact ⟨cut, List.mem_cons_of_mem _ hcut, hnone⟩

/-- A text in which a header is met whose brace is not closed is not scanned. -/
theorem Meets.scan_error (h : Meets cs inner)
    (hunclosed : ∀ body rest, Balanced body → inner ≠ body ++ '\x7d' :: rest) :
    ∃ fault, scan cs = .error fault := by
  obtain ⟨cut, hcut, hnone⟩ := h.unclosed hunclosed
  have herror : cut.components scan = .error (.unterminatedComponent cut.header.name) := by
    rw [Cut.components, hnone]
  obtain ⟨fault, hfault⟩ := mapM_error_of_mem hcut herror
  exact ⟨fault, by rw [scan_eq, hfault, error_bind]⟩

end TreeFacts.Program
