import ScriptSandbox.Table

/-!
Tables that name nothing twice. Setting a name keeps this, and building a table from pairs that
already have it changes nothing.
-/

namespace ScriptSandbox.Table

variable {Entry : Type}

/-- No name stands twice in the table. -/
def Distinct (table : Table Entry) : Prop :=
  (table.map Prod.fst).Nodup

instance (table : Table Entry) : Decidable table.Distinct :=
  inferInstanceAs (Decidable (table.map Prod.fst).Nodup)

theorem distinct_nil : Distinct ([] : Table Entry) :=
  List.nodup_nil

theorem distinct_cons {key : String} {entry : Entry} {rest : Table Entry} :
    Distinct ((key, entry) :: rest) ↔ (∀ pair ∈ rest, pair.1 ≠ key) ∧ Distinct rest := by
  unfold Distinct
  rw [List.map_cons, List.nodup_cons]
  simp only [List.mem_map, not_exists, not_and]

theorem mem_set {table : Table Entry} (distinct : Distinct table) {name : String} {entry : Entry}
    {pair : String × Entry} (member : pair ∈ table.set name entry) :
    pair = (name, entry) ∨ pair ∈ table ∧ pair.1 ≠ name := by
  induction table with
  | nil => exact .inl (List.mem_singleton.mp member)
  | cons head rest ih =>
      obtain ⟨key, old⟩ := head
      obtain ⟨others, distinctRest⟩ := distinct_cons.mp distinct
      unfold set at member
      split at member
      · next same =>
          subst same
          rcases List.mem_cons.mp member with rfl | later
          · exact .inl rfl
          · exact .inr ⟨List.mem_cons_of_mem _ later, others pair later⟩
      · next differs =>
          rcases List.mem_cons.mp member with rfl | later
          · exact .inr ⟨List.mem_cons_self, differs⟩
          · rcases ih distinctRest later with new | ⟨old, other⟩
            · exact .inl new
            · exact .inr ⟨List.mem_cons_of_mem _ old, other⟩

theorem set_distinct {table : Table Entry} (distinct : Distinct table) (name : String)
    (entry : Entry) : Distinct (table.set name entry) := by
  induction table with
  | nil => exact distinct_cons.mpr ⟨by simp, distinct_nil⟩
  | cons head rest ih =>
      obtain ⟨key, old⟩ := head
      obtain ⟨others, distinctRest⟩ := distinct_cons.mp distinct
      unfold set
      split
      · exact distinct_cons.mpr ⟨others, distinctRest⟩
      · next differs =>
          refine distinct_cons.mpr ⟨?_, ih distinctRest⟩
          intro pair member
          rcases mem_set distinctRest member with rfl | ⟨later, -⟩
          · exact fun same => differs same.symm
          · exact others pair later

theorem set_of_new {table : Table Entry} {name : String} (entry : Entry)
    (new : ∀ pair ∈ table, pair.1 ≠ name) : table.set name entry = table ++ [(name, entry)] := by
  induction table with
  | nil => rfl
  | cons head rest ih =>
      obtain ⟨key, old⟩ := head
      have differs : key ≠ name := new (key, old) List.mem_cons_self
      rw [set, if_neg differs, ih fun pair member => new pair (List.mem_cons_of_mem _ member)]
      rfl

theorem get_of_mem {table : Table Entry} (distinct : Distinct table) {pair : String × Entry}
    (member : pair ∈ table) : table.get? pair.1 = some pair.2 := by
  induction table with
  | nil => cases member
  | cons head rest ih =>
      obtain ⟨key, entry⟩ := head
      obtain ⟨others, distinctRest⟩ := distinct_cons.mp distinct
      rcases List.mem_cons.mp member with rfl | later
      · simp [get?]
      · rw [get?, if_neg fun same => others pair later same.symm, ih distinctRest later]

theorem mem_of_get {table : Table Entry} {name : String} {entry : Entry}
    (found : table.get? name = some entry) : (name, entry) ∈ table := by
  induction table with
  | nil => cases found
  | cons head rest ih =>
      obtain ⟨key, old⟩ := head
      rw [get?] at found
      split at found
      · next same =>
          cases found
          subst same
          exact List.mem_cons_self
      · exact List.mem_cons_of_mem _ (ih found)

theorem get_map {Other : Type} (table : Table Entry) (change : Entry → Other) (name : String) :
    get? (table.map fun pair => (pair.1, change pair.2)) name = (table.get? name).map change := by
  induction table with
  | nil => rfl
  | cons head rest ih =>
      rw [List.map_cons, get?, get?, ih]
      split <;> rfl

theorem contains_iff_mem {table : Table Entry} {name : String} :
    table.contains name = true ↔ name ∈ table.map Prod.fst := by
  induction table with
  | nil => simp [contains, get?]
  | cons head rest ih =>
      obtain ⟨key, entry⟩ := head
      rw [contains, get?, List.map_cons, List.mem_cons]
      split
      · next same => simp [same]
      · next differs => rw [← ih, contains, or_iff_right (Ne.symm differs)]

/-- Setting pairs one after another keeps names apart, and every entry comes from somewhere. -/
theorem fold_set_distinct (pairs : List (String × Entry)) {table : Table Entry}
    (distinct : Distinct table) :
    Distinct (pairs.foldl (fun table pair => table.set pair.1 pair.2) table) ∧
      ∀ pair ∈ pairs.foldl (fun table pair => table.set pair.1 pair.2) table,
        pair ∈ table ∨ pair ∈ pairs := by
  induction pairs generalizing table with
  | nil => exact ⟨distinct, fun pair member => .inl member⟩
  | cons head rest ih =>
      obtain ⟨kept, origins⟩ := ih (set_distinct distinct head.1 head.2)
      refine ⟨kept, fun pair member => ?_⟩
      rcases origins pair member with earlier | later
      · rcases mem_set distinct earlier with same | ⟨old, -⟩
        · exact .inr (same ▸ List.mem_cons_self)
        · exact .inl old
      · exact .inr (List.mem_cons_of_mem _ later)

theorem of_pairs_distinct (pairs : List (String × Entry)) : Distinct (ofPairs pairs) :=
  (fold_set_distinct pairs distinct_nil).1

theorem mem_of_pairs {pairs : List (String × Entry)} {pair : String × Entry}
    (member : pair ∈ ofPairs pairs) : pair ∈ pairs := by
  rcases (fold_set_distinct pairs distinct_nil).2 pair member with none | given
  · cases none
  · exact given

theorem fold_set_new {pairs : List (String × Entry)} {table : Table Entry}
    (distinct : Distinct (table ++ pairs)) :
    pairs.foldl (fun table pair => table.set pair.1 pair.2) table = table ++ pairs := by
  induction pairs generalizing table with
  | nil => simp
  | cons head rest ih =>
      have new : ∀ pair ∈ table, pair.1 ≠ head.1 := by
        intro pair member same
        unfold Distinct at distinct
        rw [List.map_append, List.nodup_append] at distinct
        exact distinct.2.2 pair.1 (List.mem_map_of_mem member) head.1 (by simp) same
      rw [List.foldl_cons, set_of_new head.2 new, ih (by simpa using distinct)]
      simp

theorem of_pairs_self {pairs : List (String × Entry)} (distinct : Distinct pairs) :
    ofPairs pairs = pairs :=
  fold_set_new distinct

end ScriptSandbox.Table
