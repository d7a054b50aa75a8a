namespace TreeFacts

/-- Entries under distinct keys in ascending order; keys compare by code points, which is the order
of their UTF-8 bytes. -/
abbrev Entries (α : Type) := List (String × α)

namespace Entries

variable {κ α : Type}

/-- Puts a value under a key, in place of the one that stood there. -/
def insert (key : String) (value : α) : Entries α → Entries α
  | [] => [(key, value)]
  | (k, v) :: rest =>
    if key = k then (key, value) :: rest
    else if key < k then (key, value) :: (k, v) :: rest
    else (k, v) :: insert key value rest

def ofList (pairs : List (String × α)) : Entries α :=
  pairs.foldl (fun entries p => insert p.1 p.2 entries) []

/-- A sorted list without the repetitions of the given one. -/
def keySet (names : List String) : List String :=
  (ofList (names.map fun name => (name, ()))).map (·.1)

/-- The keys stand in ascending order, none of them twice. -/
def Ascending (es : Entries α) : Prop := es.Pairwise fun a b => a.1 < b.1

theorem lookup_cons_of_ne [BEq κ] [LawfulBEq κ] {k key : κ} (h : k ≠ key) (value : α)
    (es : List (κ × α)) :
    List.lookup k ((key, value) :: es) = es.lookup k := by
  simp [List.lookup_cons, beq_eq_false_iff_ne.mpr h]

theorem lookup_insert_self (key : String) (value : α) (es : Entries α) :
    (insert key value es).lookup key = some value := by
  induction es with
  | nil => simp [insert]
  | cons e rest ih =>
    obtain ⟨other, w⟩ := e
    unfold insert
    split
    · simp
    next hne =>
      split
      · simp
      · rw [lookup_cons_of_ne hne, ih]

theorem lookup_insert_of_ne {k key : String} (h : k ≠ key) (value : α) (es : Entries α) :
    (insert key value es).lookup k = es.lookup k := by
  induction es with
  | nil => simp [insert, lookup_cons_of_ne h]
  | cons e rest ih =>
    obtain ⟨other, w⟩ := e
    unfold insert
    split
    next heq =>
      subst heq
      rw [lookup_cons_of_ne h, lookup_cons_of_ne h]
    · split
      · rw [lookup_cons_of_ne h]
      · simp only [List.lookup_cons, ih]

theorem lookup_insert (key : String) (value : α) (es : Entries α) (k : String) :
    (insert key value es).lookup k = if k = key then some value else es.lookup k := by
  split
  next h => rw [h, lookup_insert_self]
  next h => exact lookup_insert_of_ne h value es

theorem insert_map {β : Type} (f : α → β) (key : String) (value : α) (es : Entries α) :
    (insert key value es).map (fun e => (e.1, f e.2)) =
      insert key (f value) (es.map fun e => (e.1, f e.2)) := by
  induction es with
  | nil => rfl
  | cons e rest ih =>
    obtain ⟨other, w⟩ := e
    rw [List.map_cons]
    unfold insert
    split
    · rfl
    · split
      · rfl
      · rw [List.map_cons, ih]

theorem mem_insert {key : String} {value : α} {es : Entries α} {e : String × α}
    (he : e ∈ insert key value es) : e = (key, value) ∨ e ∈ es := by
  induction es with
  | nil => simpa [insert] using he
  | cons first rest ih =>
    obtain ⟨other, w⟩ := first
    unfold insert at he
    split at he
    · rcases List.mem_cons.mp he with rfl | he
      · exact Or.inl rfl
      · exact Or.inr (List.mem_cons_of_mem _ he)
    · split at he
      · exact List.mem_cons.mp he
      · rcases List.mem_cons.mp he with rfl | he
        · exact Or.inr (by simp)
        · exact (ih he).imp_right (List.mem_cons_of_mem _)

theorem Ascending.insert {es : Entries α} (h : Ascending es) (key : String) (value : α) :
    Ascending (insert key value es) := by
  induction es with
  | nil => simp [Entries.insert, Ascending]
  | cons first rest ih =>
    obtain ⟨other, w⟩ := first
    obtain ⟨hfirst, hrest⟩ := List.pairwise_cons.mp h
    unfold Entries.insert
    split
    next heq =>
      subst heq
      exact List.pairwise_cons.mpr ⟨hfirst, hrest⟩
    next hne =>
      split
      next hlt =>
        refine List.pairwise_cons.mpr ⟨?_, h⟩
        intro e he
        rcases List.mem_cons.mp he with rfl | he
        · exact hlt
        · exact String.lt_trans hlt (hfirst e he)
      next hge =>
        refine List.pairwise_cons.mpr ⟨?_, ih hrest⟩
        intro e he
        rcases mem_insert he with rfl | he
        · have hle : other ≤ key := String.not_lt.mp hge
          exact String.not_le.mp fun hle' => hne (String.le_antisymm hle' hle)
        · exact hfirst e he

theorem mem_of_lookup [BEq κ] [LawfulBEq κ] {es : List (κ × α)} {k : κ} {v : α}
    (h : es.lookup k = some v) : (k, v) ∈ es := by
  obtain ⟨before, behind, rfl, -⟩ := List.lookup_eq_some_iff.mp h
  simp

theorem lookup_eq_none_iff [BEq κ] [LawfulBEq κ] {es : List (κ × α)} {k : κ} :
    es.lookup k = none ↔ k ∉ es.map (·.1) := by
  rw [List.lookup_eq_none_iff]
  constructor
  · intro h hmem
    obtain ⟨e, he, rfl⟩ := List.mem_map.mp hmem
    simpa using h e he
  · intro h e he
    exact bne_iff_ne.mpr fun heq => h (List.mem_map.mpr ⟨e, he, heq.symm⟩)

theorem lookup_of_mem [BEq κ] [LawfulBEq κ] {es : List (κ × α)} (hn : (es.map (·.1)).Nodup)
    {k : κ} {v : α} (h : (k, v) ∈ es) : es.lookup k = some v := by
  induction es with
  | nil => simp at h
  | cons first rest ih =>
    obtain ⟨other, w⟩ := first
    obtain ⟨hfresh, hrest⟩ := List.nodup_cons.mp hn
    rcases List.mem_cons.mp h with heq | hmem
    · cases heq
      simp
    · have hk : k ≠ other := by
        rintro rfl
        exact hfresh (List.mem_map.mpr ⟨(k, v), hmem, rfl⟩)
      rw [lookup_cons_of_ne hk, ih hrest hmem]

theorem lookup_filter {f : String → Bool} {k : String} (h : f k = true) (es : List (String × α)) :
    (es.filter fun e => f e.1).lookup k = es.lookup k := by
  induction es with
  | nil => rfl
  | cons e rest ih =>
    obtain ⟨other, v⟩ := e
    rw [List.filter_cons]
    by_cases hk : k = other
    · subst hk
      rw [if_pos h, List.lookup_cons_self, List.lookup_cons_self]
    · rw [lookup_cons_of_ne hk, ← ih]
      split
      · rw [lookup_cons_of_ne hk]
      · rfl

theorem lookup_map_keys {β : Type} {f : String → String} (hf : ∀ a b, f a = f b → a = b)
    (g : α → β) (es : Entries α) (k : String) :
    (es.map fun e => (f e.1, g e.2)).lookup (f k) = (es.lookup k).map g := by
  induction es with
  | nil => rfl
  | cons first rest ih =>
    obtain ⟨other, w⟩ := first
    rw [List.map_cons]
    by_cases hk : k = other
    · subst hk
      simp
    · rw [lookup_cons_of_ne (fun h => hk (hf k other h)), lookup_cons_of_ne hk, ih]

theorem Ascending.nodup_keys {es : Entries α} (h : Ascending es) : (es.map (·.1)).Nodup := by
  refine List.pairwise_map.mpr (h.imp ?_)
  intro a b hab heq
  exact String.lt_irrefl _ (heq ▸ hab)

theorem nodup_of_nodup_keys {pairs : List (String × α)} (hn : (pairs.map (·.1)).Nodup) :
    pairs.Nodup :=
  (List.pairwise_map.mp hn).imp fun hne heq => hne (congrArg _ heq)

/-- Without repeated keys, lists with the same under each key differ in order alone. -/
theorem perm_of_lookup {ps qs : List (String × α)} (hp : (ps.map (·.1)).Nodup)
    (hq : (qs.map (·.1)).Nodup) (h : ∀ k, ps.lookup k = qs.lookup k) : ps.Perm qs := by
  refine (List.perm_ext_iff_of_nodup (nodup_of_nodup_keys hp) (nodup_of_nodup_keys hq)).mpr ?_
  rintro ⟨k, v⟩
  constructor
  · intro hk
    exact mem_of_lookup ((h k).symm.trans (lookup_of_mem hp hk))
  · intro hk
    exact mem_of_lookup ((h k).trans (lookup_of_mem hq hk))

/-- Ascending entries are determined by what stands under each key. -/
theorem Ascending.ext {es fs : Entries α} (he : Ascending es) (hf : Ascending fs)
    (h : ∀ k, es.lookup k = fs.lookup k) : es = fs := by
  refine (perm_of_lookup he.nodup_keys hf.nodup_keys h).eq_of_pairwise ?_ he hf
  intro a b _ _ hab hba
  exact absurd hba (String.lt_asymm hab)

theorem ascending_nil : Ascending ([] : Entries α) := List.Pairwise.nil

theorem lookup_foldl_insert {pairs : List (String × α)} (hn : (pairs.map (·.1)).Nodup)
    (acc : Entries α) (k : String) :
    (pairs.foldl (fun es p => insert p.1 p.2 es) acc).lookup k =
      (pairs.lookup k).or (acc.lookup k) := by
  induction pairs generalizing acc with
  | nil => simp
  | cons p rest ih =>
    obtain ⟨key, v⟩ := p
    obtain ⟨hfresh, hrest⟩ := List.nodup_cons.mp hn
    rw [List.foldl_cons, ih hrest, lookup_insert]
    by_cases hk : k = key
    · subst hk
      simp [lookup_eq_none_iff.mpr hfresh]
    · rw [if_neg hk, lookup_cons_of_ne hk]

theorem lookup_ofList {pairs : List (String × α)} (hn : (pairs.map (·.1)).Nodup) (k : String) :
    (ofList pairs).lookup k = pairs.lookup k := by
  have h := lookup_foldl_insert hn [] k
  rwa [List.lookup_nil, Option.or_none] at h

theorem ascending_ofList (pairs : List (String × α)) : Ascending (ofList pairs) := by
  have hfold : ∀ acc : Entries α, Ascending acc →
      Ascending (pairs.foldl (fun es p => insert p.1 p.2 es) acc) := by
    induction pairs with
    | nil => exact fun _ h => h
    | cons p rest ih => exact fun acc h => ih _ (h.insert p.1 p.2)
  exact hfold [] ascending_nil

theorem mem_ofList {pairs : List (String × α)} {e : String × α} (h : e ∈ ofList pairs) :
    e ∈ pairs := by
  have hfold : ∀ acc : Entries α, e ∈ pairs.foldl (fun es p => insert p.1 p.2 es) acc →
      e ∈ pairs ∨ e ∈ acc := by
    clear h
    induction pairs with
    | nil => exact fun _ h => .inr h
    | cons p rest ih =>
      intro acc h
      rcases ih _ h with hrest | hacc
      · exact .inl (List.mem_cons_of_mem p hrest)
      · rcases mem_insert hacc with rfl | hacc
        · exact .inl List.mem_cons_self
        · exact .inr hacc
  exact (hfold [] h).resolve_right List.not_mem_nil

theorem Ascending.ofList_eq {es : Entries α} (h : Ascending es) : ofList es = es :=
  (ascending_ofList es).ext h fun k => lookup_ofList h.nodup_keys k

theorem ofList_perm {pairs : List (String × α)} (hn : (pairs.map (·.1)).Nodup) :
    (ofList pairs).Perm pairs :=
  perm_of_lookup (ascending_ofList pairs).nodup_keys hn fun k => lookup_ofList hn k

end Entries

theorem find?_name_eq_some {α : Type} {name : α → String} {as : List α}
    (hn : (as.map name).Nodup) {n : String} {a : α} :
    as.find? (fun a => name a == n) = some a ↔ a ∈ as ∧ name a = n := by
  constructor
  · intro ha
    have hname : (name a == n) = true := List.find?_some (p := fun a => name a == n) ha
    exact ⟨List.mem_of_find?_eq_some ha, beq_iff_eq.mp hname⟩
  · rintro ⟨ha, rfl⟩
    induction as with
    | nil => simp at ha
    | cons first rest ih =>
      obtain ⟨hfresh, hrest⟩ := List.nodup_cons.mp hn
      rcases List.mem_cons.mp ha with rfl | ha
      · simp
      · have hne : name first ≠ name a := fun heq => hfresh (List.mem_map.mpr ⟨a, ha, heq.symm⟩)
        rw [List.find?_cons, beq_eq_false_iff_ne.mpr hne]
        exact ih hrest ha

end TreeFacts
