import TreeFacts.Proofs.Program.Recognition

namespace TreeFacts.Program

variable {α : Type} {front : List Char}

theorem typeHead?_stops {sign : String} (hsign : '"' ∉ sign.toList) : Stops (typeHead? sign) :=
  (keyword?_stops (by decide)).bind_skip
    (name?_stops.bind fun name => (sign?_stops hsign).bind_skip (stops_pure name))

theorem subtype?_stops : Stops subtype? := by
  have hbase (name : String) :
      Stops fun cs => (name? cs).bind fun p => some (TypeDef.subtype name (.ofName p.1), p.2) :=
    name?_stops.bind fun base => stops_pure (TypeDef.subtype name (.ofName base))
  exact (typeHead?_stops (by decide)).bind hbase

theorem record?_steady : Steady record? :=
  (typeHead?_stops (by decide)).bind_steady fun name =>
    (dropFront?_stops (by decide)).skip_steady ((before?_steady (by decide)).map (name, ·))

theorem branch?_steady : Steady branch? :=
  name?_stops.bind_steady fun name =>
    Stops.skip_steady (dropFront?_stops (by decide)).skipBlanks
      ((before?_steady (by decide)).map (name, ·))

theorem declaration?_steady : Steady declaration? :=
  (keyword?_stops (by decide)).skip_steady <| qualifiedName?_stops.bind_steady fun name =>
    Stops.skip_steady (dropFront?_stops (by decide)).skipBlanks
      ((before?_steady (by decide)).map (name, ·))

section

variable {item? : Recogniser α} {sign : String} {cs rest : List Char}

/-- An item in front of the items that are recognised behind it, if there are any. -/
def consItem (item : α) (rest : List Char) : Option (List α × List Char) → List α × List Char
  | some (items, after) => (item :: items, after)
  | none => ([item], rest)

theorem separated_succ (fuel : Nat) : separated sign item? (fuel + 1) cs =
    (item? cs).map fun p =>
      consItem p.1 p.2 ((sign? sign p.2).bind (separated sign item? fuel)) := by
  rw [separated]
  cases item? cs with
  | none => rfl
  | some p =>
    obtain ⟨item, rest⟩ := p
    show (match (sign? sign rest).bind (separated sign item? fuel) with
      | some (items, after) => some (item :: items, after)
      | none => some ([item], rest)) = some (consItem item rest _)
    cases (sign? sign rest).bind (separated sign item? fuel) <;> rfl

theorem sign?_length (hsign : sign.toList ≠ []) (h : sign? sign cs = some rest) :
    rest.length < cs.length := by
  obtain ⟨after, hafter, rfl⟩ := Option.map_eq_some_iff.mp h
  have hskip := congrArg List.length (Text.dropFront?_eq_some.mp hafter)
  rw [List.length_append] at hskip
  have hpos := List.length_pos_iff.mpr hsign
  have hcs := (skipBlanks_suffix cs).length_le
  have hafter := (skipBlanks_suffix after).length_le
  omega

theorem consItem_suffix {item : α} {more : Option (List α × List Char)}
    (hmore : ∀ {items after}, more = some (items, after) → after <:+ rest) :
    (consItem item rest more).2 <:+ rest := by
  cases more with
  | none => exact List.suffix_refl rest
  | some p => exact hmore rfl

theorem separated_suffix
    (hitem : ∀ {cs item rest}, item? cs = some (item, rest) → rest <:+ cs) {fuel : Nat}
    {items : List α} (h : separated sign item? fuel cs = some (items, rest)) : rest <:+ cs := by
  induction fuel generalizing cs items rest with
  | zero => cases h
  | succ fuel ih =>
    rw [separated_succ] at h
    obtain ⟨⟨item, after⟩, hafter, heq⟩ := Option.map_eq_some_iff.mp h
    have hmore {items : List α} {last : List Char}
        (h : (sign? sign after).bind (separated sign item? fuel) = some (items, last)) :
        last <:+ after := by
      obtain ⟨next, hnext, hitems⟩ := Option.bind_eq_some_iff.mp h
      exact (ih hitems).trans (sign?_suffix hnext)
    have hrest : (consItem item after _).2 <:+ after := consItem_suffix hmore
    rw [heq] at hrest
    exact hrest.trans (hitem hafter)

theorem separated_of_item (hitem : Steady item?) (fuel : Nat) {item : α}
    (h : item? cs = some (item, rest)) :
    ∃ items after, separated sign item? (fuel + 1) cs = some (items, after) ∧ after <:+ rest := by
  rw [separated_succ, h]
  refine ⟨_, _, rfl, consItem_suffix fun {items last} hlast => ?_⟩
  obtain ⟨next, hnext, hitems⟩ := Option.bind_eq_some_iff.mp hlast
  exact (separated_suffix hitem.suffix hitems).trans (sign?_suffix hnext)

theorem Agree.consItem {behind behind' : List Char} {more more' : Option (List α × List Char)}
    (item : α) (rest : List Char) (h : Agree behind behind' more more') :
    Agree behind behind' (some (consItem item (rest ++ '"' :: behind) more))
      (some (Program.consItem item (rest ++ '"' :: behind') more')) := by
  cases h with
  | nowhere h h' => exact .within (by rw [h]; rfl) (by rw [h']; rfl)
  | within h h' => exact .within (by rw [h]; rfl) (by rw [h']; rfl)
  | left h hover => exact .left (by rw [h]; rfl) hover
  | right h hover => exact .right (by rw [h]; rfl) hover

theorem separated_agree (hitem : Steady item?) (hquote : '"' ∉ sign.toList)
    (hsign : sign.toList ≠ []) (hfront : '"' ∉ front) (behind behind' : List Char)
    {fuel fuel' : Nat} (hfuel : (front ++ '"' :: behind).length ≤ fuel)
    (hfuel' : (front ++ '"' :: behind').length ≤ fuel') :
    Agree behind behind' (separated sign item? fuel (front ++ '"' :: behind))
      (separated sign item? fuel' (front ++ '"' :: behind')) := by
  simp only [List.length_append, List.length_cons] at hfuel hfuel'
  -- Each sign shortens what is in front of the quote, so both fuels last for the items there.
  induction fuel generalizing front fuel' with
  | zero => omega
  | succ fuel ih =>
    obtain ⟨fuel', rfl⟩ : ∃ n, fuel' = n + 1 := ⟨fuel' - 1, by omega⟩
    cases hitem.agree hfront behind behind' with
    | nowhere h h' =>
      rw [separated_succ, separated_succ, h, h']
      exact .nowhere rfl rfl
    | left h hover =>
      obtain ⟨items, after, hitems, hafter⟩ := separated_of_item hitem fuel h
      exact .left hitems (Nat.le_trans hafter.length_le hover)
    | right h hover =>
      obtain ⟨items, after, hitems, hafter⟩ := separated_of_item hitem fuel' h
      exact .right hitems (Nat.le_trans hafter.length_le hover)
    | @within item rest h h' =>
      have hrest := suffix_of_append (hitem.suffix h)
      have hfree := notMem_of_suffix hfront hrest
      have hskip := (sign?_stops hquote).skip_quote hfree
      rw [separated_succ, separated_succ, h, h', Option.map_some, Option.map_some, hskip, hskip]
      refine Agree.consItem item rest ?_
      cases hnext : sign? sign rest with
      | none => exact .nowhere rfl rfl
      | some next =>
        have hshort := sign?_length hsign hnext
        have hlength := hrest.length_le
        exact ih (notMem_of_suffix hfree (sign?_suffix hnext)) (by omega) (by omega)

theorem separated_steady (hitem : Steady item?) (hquote : '"' ∉ sign.toList)
    (hsign : sign.toList ≠ []) : Steady fun cs => separated sign item? cs.length cs where
  suffix h := separated_suffix hitem.suffix h
  agree hfront behind behind' :=
    separated_agree hitem hquote hsign hfront behind behind' (Nat.le_refl _) (Nat.le_refl _)

end

theorem union?_steady : Steady union? :=
  (typeHead?_stops (by decide)).bind_steady fun name =>
    (separated_steady branch?_steady (by decide) (by decide)).map (name, ·)

theorem outputs?_steady : Steady outputs? :=
  (keyword?_stops (by decide)).skip_steady
    (separated_steady qualifiedName?_stops.steady (by decide) (by decide))

/-- A list in angle brackets ends in front of a quote, or what is recognised instead is seen past
its bracket. -/
theorem angled_quote (hfront : '"' ∉ front) :
    (∃ list rest, rest <:+ front ∧
      ∀ behind, angled (front ++ '"' :: behind) = (list, rest ++ '"' :: behind)) ∨
    ∃ inner, skipBlanks front = '<' :: inner ∧ ∀ behind,
      angled (front ++ '"' :: behind) = (none, front ++ '"' :: behind) ∨
      ∃ text rest, angled (front ++ '"' :: behind) = (some text, rest) ∧
        rest.length ≤ behind.length := by
  have hbracket : Stops (skipped (Text.dropFront? ['<'])) := dropFront?_stops (by decide)
  have hopen := hbracket.skip_quote (notMem_of_suffix hfront (skipBlanks_suffix front))
  cases hinner : Text.dropFront? ['<'] (skipBlanks front) with
  | none =>
    refine Or.inl ⟨none, front, List.suffix_refl front, fun behind => ?_⟩
    rw [angled, skipBlanks_quote, hopen, hinner]
    rfl
  | some inner =>
    have hskip := Text.dropFront?_eq_some.mp hinner
    by_cases hclose : '>' ∈ inner
    · obtain ⟨text, rest, hrest, hfound⟩ := before?_of_mem hclose
      refine Or.inl ⟨some text, rest, ?_, fun behind => ?_⟩
      · exact hrest.trans (List.IsSuffix.trans ⟨['<'], hskip.symm⟩ (skipBlanks_suffix front))
      · rw [angled, skipBlanks_quote, hopen, hinner]
        simp only [Option.map_some, hfound]
    · refine Or.inr ⟨inner, hskip, fun behind => ?_⟩
      rw [angled, skipBlanks_quote, hopen, hinner]
      simp only [Option.map_some]
      rcases before?_of_notMem (by decide) hclose behind with hnone | ⟨text, rest, hsome, hover⟩
      · exact Or.inl (by rw [hnone])
      · exact Or.inr ⟨text, rest, by rw [hsome], hover⟩

theorem angled_suffix (cs : List Char) : (angled cs).2 <:+ cs := by
  unfold angled
  split
  next => exact List.suffix_refl cs
  next inner hinner =>
    split
    next text rest hrest =>
      have hinner' : inner <:+ skipBlanks cs := ⟨['<'], (Text.dropFront?_eq_some.mp hinner).symm⟩
      exact (before?_suffix hrest).trans (hinner'.trans (skipBlanks_suffix cs))
    next => exact List.suffix_refl cs

theorem angled_steady : Steady fun cs => some (angled cs) where
  suffix {cs found rest} h := by
    have hsuffix := angled_suffix cs
    rwa [Option.some.inj h] at hsuffix
  agree {front} hfront behind behind' := by
    rcases angled_quote hfront with ⟨list, rest, -, hlist⟩ | ⟨inner, -, hopen⟩
    · exact .within (congrArg some (hlist behind)) (congrArg some (hlist behind'))
    · rcases hopen behind with hnone | ⟨text, rest, hsome, hover⟩
      · rcases hopen behind' with hnone' | ⟨text, rest, hsome, hover⟩
        · exact .within (congrArg some hnone) (congrArg some hnone')
        · exact .right (congrArg some hsome) hover
      · exact .left (congrArg some hsome) hover

theorem init?_steady : Steady init? := by
  have hargs (name component : String) :=
    angled_steady.map fun args => Init.mk name component ((args.map columnTypes).getD [])
  have hsign : Stops (skipped (sign? "=")) := sign?_stops (by decide)
  have hcomponent (name : String) := hsign.skip_steady (name?_stops.bind_steady (hargs name))
  exact (keyword?_stops (by decide)).skip_steady (name?_stops.bind_steady hcomponent)

/-- What stands in a header behind the parameters of its component. -/
def bases? (name : String) (params : List String) : Recogniser Header := fun cs =>
  match Text.dropFront? [':'] (skipBlanks cs) with
  | some rest => (before? '\x7b' rest).bind fun p =>
    some (⟨name, params, (findAll base? p.1).map (·.2)⟩, p.2)
  | none => (Text.dropFront? ['\x7b'] (skipBlanks cs)).bind fun rest =>
    some (⟨name, params, []⟩, rest)

/-- The names in a list that may be left out. -/
def paramNames (list : Option (List Char)) : List String :=
  ((list.map listed).getD []).map String.ofList

theorem header?_eq : header? = fun cs => (keyword? ".comp" cs).bind fun cs =>
    (name? cs).bind fun p => bases? p.1 (paramNames (angled p.2).1) (angled p.2).2 := by
  funext cs
  unfold header?
  cases keyword? ".comp" cs with
  | none => rfl
  | some rest =>
    show (name? rest).bind _ = (name? rest).bind _
    cases name? rest with
    | none => rfl
    | some p =>
      simp only [Option.bind_some, bases?]
      cases Text.dropFront? [':'] (skipBlanks (angled p.2).2) <;> rfl

theorem bases?_steady (name : String) (params : List String) : Steady (bases? name params) := by
  have hcolon : Stops (skipped (Text.dropFront? [':'])) := dropFront?_stops (by decide)
  have hopen : Stops (skipped (Text.dropFront? ['\x7b'])) := dropFront?_stops (by decide)
  have hbody : Steady (before? '\x7b') := before?_steady (by decide)
  have hbases := hbody.map fun text => Header.mk name params ((findAll base? text).map (·.2))
  have hnone := hopen.bind_skip (stops_pure (Header.mk name params []))
  have hrest : Steady fun cs => match Text.dropFront? [':'] cs with
      | some rest => (before? '\x7b' rest).bind fun p =>
        some (Header.mk name params ((findAll base? p.1).map (·.2)), p.2)
      | none => (Text.dropFront? ['\x7b'] cs).bind fun rest =>
        some (Header.mk name params [], rest) := by
    constructor
    · intro cs found rest h
      cases hskip : Text.dropFront? [':'] cs with
      | none =>
        rw [hskip] at h
        exact hnone.suffix h
      | some after =>
        rw [hskip] at h
        exact (hbases.suffix h).trans (hcolon.skip_suffix hskip)
    · intro front hfront behind behind'
      have hquote := hcolon.skip_quote hfront
      rw [hquote, hquote]
      cases hskip : Text.dropFront? [':'] front with
      | none => exact hnone.steady.agree hfront behind behind'
      | some after =>
        exact hbases.agree (notMem_of_suffix hfront (hcolon.skip_suffix hskip)) behind behind'
  exact hrest.skipBlanks

/-- A header that has an open bracket behind its name has the bracket closed. -/
theorem bases?_eq_none {cs inner : List Char} (h : skipBlanks cs = '<' :: inner) (name : String)
    (params : List String) : bases? name params cs = none := by
  unfold bases?
  rw [h, Text.dropFront?_cons_of_ne (by decide), Text.dropFront?_cons_of_ne (by decide)]
  rfl

theorem header?_steady : Steady header? := by
  have hrest (name : String) : Steady fun cs =>
      bases? name (paramNames (angled cs).1) (angled cs).2 := by
    constructor
    · intro cs found rest h
      exact ((bases?_steady _ _).suffix h).trans (angled_suffix cs)
    · intro front hfront behind behind'
      rcases angled_quote hfront with ⟨list, rest, hsuffix, hlist⟩ | ⟨inner, hinner, hopen⟩
      · rw [hlist, hlist]
        exact (bases?_steady _ _).agree (notMem_of_suffix hfront hsuffix) behind behind'
      · -- A bracket that is closed behind the quote leaves no header in front of it.
        have hside (behind : List Char) :
            bases? name (paramNames (angled (front ++ '"' :: behind)).1)
                (angled (front ++ '"' :: behind)).2 = none ∨
              ∃ found rest, bases? name (paramNames (angled (front ++ '"' :: behind)).1)
                (angled (front ++ '"' :: behind)).2 = some (found, rest) ∧
                rest.length ≤ behind.length := by
          rcases hopen behind with hnone | ⟨text, rest, hsome, hover⟩
          · rw [hnone]
            exact Or.inl (bases?_eq_none (by rw [skipBlanks_quote, hinner]; rfl) _ _)
          · rw [hsome]
            cases hbases : bases? name (paramNames (some text)) rest with
            | none => exact Or.inl rfl
            | some p =>
              have hlength := ((bases?_steady _ _).suffix hbases).length_le
              exact Or.inr ⟨p.1, p.2, rfl, Nat.le_trans hlength hover⟩
        exact .of_sides (hside behind) (hside behind')
  rw [header?_eq]
  exact (keyword?_stops (by decide)).skip_steady (name?_stops.bind_steady hrest)

end TreeFacts.Program
