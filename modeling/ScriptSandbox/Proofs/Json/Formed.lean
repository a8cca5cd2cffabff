import ScriptSandbox.Proofs.Json.RoundTrip
import ScriptSandbox.Value.Snapshot

/-!
Where well-formed values come from: every value read from a text is one, and so is every snapshot of
a heap, as far as its containers are not nested too deep.
-/

namespace ScriptSandbox.Json

mutual

/-- How deep containers are nested. -/
def depth : Json → Nat
  | .array items => itemsDepth items + 1
  | .object fields => fieldsDepth fields + 1
  | _ => 0

def itemsDepth : List Json → Nat
  | [] => 0
  | item :: rest => max (depth item) (itemsDepth rest)

def fieldsDepth : List (String × Json) → Nat
  | [] => 0
  | (_, value) :: rest => max (depth value) (fieldsDepth rest)

end

mutual

/-- All that a value holds but containers, in order. -/
def scalars : Json → List Json
  | .array items => itemsScalars items
  | .object fields => fieldsScalars fields
  | scalar => [scalar]

def itemsScalars : List Json → List Json
  | [] => []
  | item :: rest => scalars item ++ itemsScalars rest

def fieldsScalars : List (String × Json) → List Json
  | [] => []
  | (_, value) :: rest => scalars value ++ fieldsScalars rest

end

theorem items_depth_le {items : List Json} {bound : Nat} :
    itemsDepth items ≤ bound ↔ ∀ item ∈ items, item.depth ≤ bound := by
  induction items with
  | nil => simp [itemsDepth]
  | cons item rest ih => rw [itemsDepth, Nat.max_le, ih, List.forall_mem_cons]

theorem fields_depth_le {fields : List (String × Json)} {bound : Nat} :
    fieldsDepth fields ≤ bound ↔ ∀ field ∈ fields, field.2.depth ≤ bound := by
  induction fields with
  | nil => simp [fieldsDepth]
  | cons field rest ih => rw [fieldsDepth, Nat.max_le, ih, List.forall_mem_cons]

theorem mem_items_scalars {items : List Json} {item scalar : Json} (member : item ∈ items)
    (inside : scalar ∈ item.scalars) : scalar ∈ itemsScalars items := by
  induction items with
  | nil => cases member
  | cons first rest ih =>
      rw [itemsScalars, List.mem_append]
      rcases List.mem_cons.mp member with rfl | later
      · exact .inl inside
      · exact .inr (ih later)

theorem mem_fields_scalars {fields : List (String × Json)} {field : String × Json} {scalar : Json}
    (member : field ∈ fields) (inside : scalar ∈ field.2.scalars) :
    scalar ∈ fieldsScalars fields := by
  induction fields with
  | nil => cases member
  | cons first rest ih =>
      rw [fieldsScalars, List.mem_append]
      rcases List.mem_cons.mp member with rfl | later
      · exact .inl inside
      · exact .inr (ih later)

/-- Every float of a value is an accepted one. -/
def Accepts (accepted : Number → Prop) (json : Json) : Prop :=
  ∀ number, .float number ∈ json.scalars → accepted number

def acceptsScalar (accepted : Number → Prop) [DecidablePred accepted] : Json → Bool
  | .float number => accepted number
  | _ => true

theorem accepts_iff {accepted : Number → Prop} [DecidablePred accepted] {json : Json} :
    json.scalars.all (acceptsScalar accepted) = true ↔ Accepts accepted json := by
  rw [List.all_eq_true]
  constructor
  · exact fun all number member => of_decide_eq_true (all (.float number) member)
  · intro accepts scalar member
    cases scalar with
    | float number => exact decide_eq_true (accepts number member)
    | _ => rfl

instance (accepted : Number → Prop) [DecidablePred accepted] (json : Json) :
    Decidable (Accepts accepted json) :=
  decidable_of_iff (json.scalars.all (acceptsScalar accepted) = true) accepts_iff

/-- Which floats are accepted is a matter of its own. -/
theorem Formed.accepting {accepted other : Number → Prop} {room : Nat} {json : Json}
    (formed : Formed accepted room json) (accepts : Accepts other json) : Formed other room json := by
  induction formed with
  | null room => exact .null room
  | bool room value => exact .bool room value
  | integer room inWord => exact .integer room inWord
  | float room _ => exact .float room (accepts _ List.mem_cons_self)
  | string room value => exact .string room value
  | array each ih =>
      exact .array fun item member => ih item member fun number inside =>
        accepts number (mem_items_scalars member inside)
  | object distinct each ih =>
      exact .object distinct fun field member => ih field member fun number inside =>
        accepts number (mem_fields_scalars member inside)

/-- Values whose floats may be any. -/
abbrev Shaped (room : Nat) (json : Json) : Prop :=
  Formed (fun _ => True) room json

theorem shaped_of_number {json : Json} (number : IsNumber json) (room : Nat) : Shaped room json := by
  cases number with
  | float value => exact .float room trivial
  | integer inWord => exact .integer room inWord

theorem read_items_origin {readItem : List Char → Read Json} {fuel : Nat} {read items : List Json}
    {text left : List Char} (found : readItems readItem fuel read text = .ok (items, left))
    {item : Json} (member : item ∈ items) :
    item ∈ read ∨ ∃ start after, readItem start = .ok (item, after) := by
  induction fuel generalizing read text with
  | zero => cases found
  | succ fuel ih =>
      have newest {first : Json} {after : List Char} (taken : readItem text = .ok (first, after))
          (inside : item ∈ first :: read) :
          item ∈ read ∨ ∃ start after, readItem start = .ok (item, after) := by
        rcases List.mem_cons.mp inside with rfl | older
        · exact .inr ⟨text, after, taken⟩
        · exact .inl older
      unfold readItems at found
      split at found
      · cases found
      · next first after taken =>
          split at found
          · cases found
          · cases found
            exact newest taken (List.mem_reverse.mp member)
          · split at found
            · cases found
            · cases found
            · rcases ih found with inside | read
              · exact newest taken inside
              · exact .inr read
          · cases found

theorem read_field_value {readItem : List Char → Read Json} {text left : List Char}
    {field : String × Json} (found : readField readItem text = .ok (field, left)) :
    ∃ start, readItem start = .ok (field.2, left) := by
  unfold readField at found
  split at found
  · split at found
    · cases found
    · split at found
      · cases found
      · next start _ =>
          split at found
          · cases found
          · next value after taken =>
              cases found
              exact ⟨start, taken⟩
      · cases found
  · cases found

theorem read_fields_origin {readItem : List Char → Read Json} {fuel : Nat}
    {read fields : List (String × Json)} {text left : List Char}
    (found : readFields readItem fuel read text = .ok (fields, left))
    {field : String × Json} (member : field ∈ fields) :
    field ∈ read ∨ ∃ start after, readItem start = .ok (field.2, after) := by
  induction fuel generalizing read text with
  | zero => cases found
  | succ fuel ih =>
      have newest {first : String × Json} {after : List Char}
          (taken : readField readItem text = .ok (first, after)) (inside : field ∈ first :: read) :
          field ∈ read ∨ ∃ start after, readItem start = .ok (field.2, after) := by
        rcases List.mem_cons.mp inside with rfl | older
        · obtain ⟨start, value⟩ := read_field_value taken
          exact .inr ⟨start, after, value⟩
        · exact .inl older
      unfold readFields at found
      split at found
      · cases found
      · next first after taken =>
          split at found
          · cases found
          · cases found
            exact newest taken (List.mem_reverse.mp member)
          · split at found
            · cases found
            · cases found
            · rcases ih found with inside | read
              · exact newest taken inside
              · exact .inr read
          · cases found

theorem read_with_shaped {array object : List Char → Read Json} {room : Nat} {text left : List Char}
    {json : Json} (arrays : ∀ {text left json}, array text = .ok (json, left) → Shaped room json)
    (objects : ∀ {text left json}, object text = .ok (json, left) → Shaped room json)
    (read : readWith array object text = .ok (json, left)) : Shaped room json := by
  unfold readWith at read
  split at read
  · cases read
  · exact read_word_value read ▸ .null room
  · exact read_word_value read ▸ .bool room true
  · exact read_word_value read ▸ .bool room false
  · exact shaped_of_number (read_unsigned_number read) room
  · split at read
    · cases read
    · cases read
      exact .string room _
  · exact arrays read
  · exact objects read
  · split at read
    · exact shaped_of_number (read_unsigned_number read) room
    · cases read

theorem read_array_shaped {readItem : List Char → Read Json} {room : Nat} {text left : List Char}
    {json : Json} (items : ∀ {text left json}, readItem text = .ok (json, left) → Shaped room json)
    (read : readArray readItem text = .ok (json, left)) : Shaped (room + 1) json := by
  unfold readArray at read
  split at read
  · cases read
  · cases read
    exact .array fun item none => nomatch none
  · split at read
    · cases read
    · next found =>
        cases read
        refine .array fun item member => ?_
        rcases read_items_origin found member with none | ⟨start, after, taken⟩
        · cases none
        · exact items taken

theorem read_object_shaped {readItem : List Char → Read Json} {room : Nat} {text left : List Char}
    {json : Json} (items : ∀ {text left json}, readItem text = .ok (json, left) → Shaped room json)
    (read : readObject readItem text = .ok (json, left)) : Shaped (room + 1) json := by
  unfold readObject at read
  split at read
  · cases read
  · cases read
    exact .object Table.distinct_nil fun field none => nomatch none
  · split at read
    · cases read
    · next pairs rest found =>
        cases read
        refine .object (Table.of_pairs_distinct pairs) fun field member => ?_
        rcases read_fields_origin found (Table.mem_of_pairs member) with none | ⟨start, after, taken⟩
        · cases none
        · exact items taken

/-- What is read within some room is shaped within it. -/
theorem read_value_shaped {room : Nat} {text left : List Char} {json : Json}
    (read : readValue room text = .ok (json, left)) : Shaped room json := by
  induction room generalizing text left json with
  | zero => exact read_with_shaped (fun stopped => by cases stopped) (fun stopped => by cases stopped) read
  | succ room ih => exact read_with_shaped (read_array_shaped ih) (read_object_shaped ih) read

theorem parse_shaped {text : String} {json : Json} (parsed : parse text = .ok json) :
    Shaped nestingLimit json := by
  unfold parse at parsed
  dsimp only at parsed
  split at parsed
  · cases parsed
  · next value rest read =>
      split at parsed
      · cases parsed
        exact read_value_shaped read
      · cases parsed

theorem of_number_shaped (number : Number) (room : Nat) : Shaped room (ofNumber number) := by
  unfold ofNumber
  split
  · split
    · next whole =>
        have small : number.wholePart.natAbs < twoTo 53 := by simpa using (Bool.and_eq_true_iff.mp whole).2
        have words : twoTo 53 ≤ twoTo 63 ∧ twoTo 53 ≤ wordLimit := by decide
        exact .integer room ⟨by omega, by omega⟩
    · exact .float room trivial
  · exact .null room

end ScriptSandbox.Json

namespace ScriptSandbox.Heap

open Json

/-- Records are maps: none of them names a field twice. -/
def WellKeyed (heap : Heap) : Prop :=
  ∀ handle, Table.Distinct (heap.fields handle)

theorem well_keyed_iff {heap : Heap} :
    (∀ fields ∈ heap.records.toList, Table.Distinct fields) ↔ heap.WellKeyed := by
  constructor
  · intro all handle
    unfold fields
    rw [Array.getD_eq_getD_getElem?]
    cases found : heap.records[handle]? with
    | none => exact Table.distinct_nil
    | some table => exact all table (Array.mem_toList_iff.mpr (Array.mem_of_getElem? found))
  · intro keyed table member
    obtain ⟨handle, inside, rfl⟩ := Array.mem_iff_getElem.mp (Array.mem_toList_iff.mp member)
    have same : heap.fields handle = heap.records[handle] := by simp [fields, inside]
    exact same ▸ keyed handle

instance (heap : Heap) : Decidable heap.WellKeyed :=
  decidable_of_iff _ well_keyed_iff

theorem array_shaped {items : List Value} {snapshot : Value → Json} {room : Nat}
    (each : ∀ {room value}, (snapshot value).depth ≤ room → Shaped room (snapshot value))
    (shallow : (Json.array (items.map snapshot)).depth ≤ room) :
    Shaped room (.array (items.map snapshot)) := by
  rw [depth] at shallow
  obtain ⟨inner, rfl⟩ : ∃ inner, room = inner + 1 := ⟨room - 1, by omega⟩
  refine .array fun item member => ?_
  have bounded := items_depth_le.mp (Nat.le_of_succ_le_succ shallow) item member
  obtain ⟨value, -, rfl⟩ := List.mem_map.mp member
  exact each bounded

theorem record_shaped {fields : Table Value} {snapshot : Value → Json} {room : Nat}
    (distinct : Table.Distinct fields)
    (each : ∀ {room value}, (snapshot value).depth ≤ room → Shaped room (snapshot value))
    (shallow : (Json.object (fields.map fun field => (field.1, snapshot field.2))).depth ≤ room) :
    Shaped room (.object (fields.map fun field => (field.1, snapshot field.2))) := by
  rw [depth] at shallow
  obtain ⟨inner, rfl⟩ : ∃ inner, room = inner + 1 := ⟨room - 1, by omega⟩
  have sameKeys : (fields.map fun field => (field.1, snapshot field.2)).map Prod.fst =
      fields.map Prod.fst := by simp
  refine .object ?_ fun field member => ?_
  · rw [Table.Distinct, sameKeys]
    exact distinct
  · have bounded := fields_depth_le.mp (Nat.le_of_succ_le_succ shallow) field member
    obtain ⟨source, -, rfl⟩ := List.mem_map.mp member
    exact each bounded

theorem snapshot_within_shaped {heap : Heap} (keyed : heap.WellKeyed) {count room : Nat}
    {opened : List Container} {value : Value}
    (shallow : (heap.snapshotWithin count opened value).depth ≤ room) :
    Shaped room (heap.snapshotWithin count opened value) := by
  induction count generalizing opened value room with
  | zero =>
      cases value with
      | null | function => exact .null room
      | bool value => exact .bool room value
      | number value => exact of_number_shaped value room
      | string | array | record => exact .string room _
  | succ count ih =>
      cases value with
      | null | function => exact .null room
      | bool value => exact .bool room value
      | number value => exact of_number_shaped value room
      | string value => exact .string room value
      | array handle =>
          rw [snapshotWithin] at shallow ⊢
          split at shallow
          · next again =>
              rw [if_pos again]
              exact .string room _
          · next first =>
              rw [if_neg first]
              exact array_shaped ih shallow
      | record handle =>
          rw [snapshotWithin] at shallow ⊢
          split at shallow
          · next again =>
              rw [if_pos again]
              exact .string room _
          · next first =>
              rw [if_neg first]
              exact record_shaped (keyed handle) ih shallow

theorem snapshot_shaped {heap : Heap} (keyed : heap.WellKeyed) {value : Value} {room : Nat}
    (shallow : (heap.snapshot value).depth ≤ room) : Shaped room (heap.snapshot value) :=
  snapshot_within_shaped keyed shallow

end ScriptSandbox.Heap
