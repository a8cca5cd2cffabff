import ScriptSandbox.Proofs.Json.Scalars
import ScriptSandbox.Proofs.Table

/-!
Indented JSON text reads back as the value it was written from, as long as its containers are not
nested beyond the reader's room, its numbers are ones the reader gives back, and no object names a
field twice.
-/

namespace ScriptSandbox.Json

/-- A value as a reader with some room for nested containers gives it: its integers fit a word, its
floats are accepted ones, and no object names a field twice. -/
inductive Formed (accepted : Number → Prop) : Nat → Json → Prop
  | null (room : Nat) : Formed accepted room .null
  | bool (room : Nat) (value : Bool) : Formed accepted room (.bool value)
  | integer (room : Nat) {value : Int} (inWord : InWord value) :
      Formed accepted room (.integer value)
  | float (room : Nat) {value : Number} (accepts : accepted value) :
      Formed accepted room (.float value)
  | string (room : Nat) (value : String) : Formed accepted room (.string value)
  | array {room : Nat} {items : List Json} (each : ∀ item ∈ items, Formed accepted room item) :
      Formed accepted (room + 1) (.array items)
  | object {room : Nat} {fields : List (String × Json)} (distinct : Table.Distinct fields)
      (each : ∀ field ∈ fields, Formed accepted room field.2) :
      Formed accepted (room + 1) (.object fields)

/-- A value whose text a reader with this room gives back. -/
def Readable (room : Nat) (json : Json) : Prop :=
  Formed ReadsBack room json

/-- The text of a value, written at a level, reads back in front of anything that does not go on
with a number. -/
def ReadsAt (room level : Nat) (json : Json) : Prop :=
  ∀ rest, EndsNumber rest → readValue room (indented level json ++ rest) = .ok (json, rest)

theorem ends_number_line (level : Nat) (rest : List Char) : EndsNumber (lineAt level ++ rest) :=
  ends_number_cons rfl (by decide) rfl

theorem ends_number_comma (rest : List Char) : EndsNumber (',' :: rest) :=
  ends_number_cons rfl (by decide) rfl

theorem indented_items_cons (level : Nat) (item next : Json) (more : List Json) :
    indentedItems level (item :: next :: more) =
      lineAt level ++ (indented level item ++ ',' :: indentedItems level (next :: more)) := by
  rw [indentedItems]
  · simp
  · simp

theorem items_length (level : Nat) (items : List Json) :
    items.length ≤ (indentedItems level items).length := by
  induction items with
  | nil => simp
  | cons item more ih =>
      cases more with
      | nil => simp [indentedItems, lineAt]
      | cons next more =>
          rw [indented_items_cons]
          simp only [List.length_append, List.length_cons] at ih ⊢
          omega

/-- Every item has a character of its own behind the blanks. -/
theorem items_fit (level outer : Nat) (items : List Json) (rest : List Char) :
    items.length ≤ (skipBlanks (indentedItems level items ++ (lineAt outer ++ ']' :: rest))).length := by
  match items with
  | [] => exact Nat.zero_le _
  | [item] =>
      have closed := length_skip_blanks (indentedItems level [item] ++ lineAt outer) rest
        (show isJsonBlank ']' = false by rfl)
      rw [List.append_assoc] at closed
      exact Nat.lt_of_le_of_lt (Nat.zero_le _) closed
  | item :: next :: more =>
      have later := length_skip_blanks (lineAt level ++ indented level item)
        (indentedItems level (next :: more) ++ (lineAt outer ++ ']' :: rest))
        (show isJsonBlank ',' = false by rfl)
      have each := items_length level (next :: more)
      rw [indented_items_cons]
      simp only [List.length_append, List.length_cons, List.append_assoc, List.cons_append]
        at later each ⊢
      omega

theorem indented_fields_cons (level : Nat) (field next : String × Json)
    (more : List (String × Json)) :
    indentedFields level (field :: next :: more) = lineAt level ++ (quoted field.1 ++
      ':' :: ' ' :: (indented level field.2 ++ ',' :: indentedFields level (next :: more))) := by
  obtain ⟨key, value⟩ := field
  rw [indentedFields]
  · simp
  · simp

theorem fields_length (level : Nat) (fields : List (String × Json)) :
    fields.length ≤ (indentedFields level fields).length := by
  induction fields with
  | nil => simp
  | cons field more ih =>
      cases more with
      | nil => simp [indentedFields, lineAt]
      | cons next more =>
          rw [indented_fields_cons]
          simp only [List.length_append, List.length_cons] at ih ⊢
          omega

theorem skip_blanks_quoted (level : Nat) (key : String) (text : List Char) :
    skipBlanks (lineAt level ++ (quoted key ++ text)) = quoted key ++ text := by
  rw [skip_blanks_line]
  exact skip_blanks_self rfl

section

variable {room level : Nat} (outer : Nat) (rest : List Char)

/-- A list of items starts with its first one, in front of a comma or the end of the list. -/
theorem items_first (level : Nat) (item : Json) (more : List Json) : ∃ after,
    indentedItems level (item :: more) ++ (lineAt outer ++ ']' :: rest) =
      lineAt level ++ (indented level item ++ after) ∧ EndsNumber after := by
  cases more with
  | nil => exact ⟨_, by rw [indentedItems, List.append_assoc], ends_number_line outer _⟩
  | cons next more =>
      refine ⟨_, ?_, ends_number_comma (indentedItems level (next :: more) ++
        (lineAt outer ++ ']' :: rest))⟩
      rw [indented_items_cons]
      simp

theorem items_open {item : Json} (reads : ReadsAt room level item) (more : List Json) :
    ∃ first text, skipBlanks (indentedItems level (item :: more) ++ (lineAt outer ++ ']' :: rest)) =
      first :: text ∧ first ≠ ']' := by
  obtain ⟨after, same, ends⟩ := items_first outer rest level item more
  obtain ⟨array, object, reader⟩ := read_value_with room
  have read := reads after ends
  rw [reader] at read
  obtain ⟨first, text, skipped, unclosed, -⟩ := read_with_starts read
  exact ⟨first, text, by rw [same, skip_blanks_line, skipped], unclosed⟩

theorem read_items_last {item : Json} (reads : ReadsAt room level item) (fuel : Nat)
    (read : List Json) :
    readItems (readValue room) (fuel + 1) read
        (skipBlanks (indentedItems level [item] ++ (lineAt outer ++ ']' :: rest))) =
      .ok ((item :: read).reverse, rest) := by
  have found : readValue room (skipBlanks (indentedItems level [item] ++
      (lineAt outer ++ ']' :: rest))) = .ok (item, lineAt outer ++ ']' :: rest) := by
    rw [indentedItems, List.append_assoc, skip_blanks_line, read_value_skip]
    exact reads _ (ends_number_line outer _)
  rw [readItems, found]
  dsimp only
  rw [skip_blanks_line, skip_blanks_self rfl]
  rfl

/-- One item is read, and the reader goes on with the next one. -/
theorem read_items_next {wide : Nat} {item next : Json} (reads : ReadsAt room level item)
    (opens : ReadsAt wide level next) (fuel : Nat) (read more : List Json) :
    readItems (readValue room) (fuel + 1) read
        (skipBlanks (indentedItems level (item :: next :: more) ++ (lineAt outer ++ ']' :: rest))) =
      readItems (readValue room) fuel (item :: read)
        (skipBlanks (indentedItems level (next :: more) ++ (lineAt outer ++ ']' :: rest))) := by
  have found : readValue room (skipBlanks (indentedItems level (item :: next :: more) ++
      (lineAt outer ++ ']' :: rest))) =
        .ok (item, ',' :: (indentedItems level (next :: more) ++ (lineAt outer ++ ']' :: rest))) := by
    rw [indented_items_cons, List.append_assoc, List.append_assoc, skip_blanks_line,
      read_value_skip, List.cons_append]
    exact reads _ (ends_number_comma _)
  obtain ⟨first, text, opened, unclosed⟩ := items_open outer rest opens more
  rw [readItems, found]
  dsimp only
  rw [skip_blanks_self rfl, opened]
  split
  case h_3 same =>
    cases same
    rw [opened]
    split
    · next none => cases none
    · next closed =>
        cases closed
        exact absurd rfl unclosed
    · rfl
  case h_4 other => exact absurd rfl (other _)
  all_goals next same => simp at same

theorem read_items_indented {items : List Json} (each : ∀ item ∈ items, ReadsAt room level item)
    (present : items ≠ []) {fuel : Nat} (enough : items.length ≤ fuel) (read : List Json) :
    readItems (readValue room) fuel read
        (skipBlanks (indentedItems level items ++ (lineAt outer ++ ']' :: rest))) =
      .ok (read.reverse ++ items, rest) := by
  induction items generalizing fuel read with
  | nil => exact absurd rfl present
  | cons item more ih =>
      obtain ⟨fuel, rfl⟩ : ∃ less, fuel = less + 1 := ⟨fuel - 1, by simp at enough; omega⟩
      have reads := each item List.mem_cons_self
      cases more with
      | nil => rw [read_items_last outer rest reads, List.reverse_cons]
      | cons next more =>
          have opens := each next (List.mem_cons_of_mem _ List.mem_cons_self)
          rw [read_items_next outer rest reads opens,
            ih (fun other member => each other (List.mem_cons_of_mem _ member))
              (List.cons_ne_nil _ _) (by simpa using enough)]
          simp

theorem read_field_quoted (room : Nat) (key : String) (text : List Char) :
    readField (readValue room) (quoted key ++ ':' :: ' ' :: text) =
      (readValue room text).map fun found => ((key, found.1), found.2) := by
  obtain ⟨inner, same, found⟩ := read_string_quoted key (':' :: ' ' :: text)
  have blank : readValue room (' ' :: text) = readValue room text := by
    rw [← read_value_skip, ← read_value_skip room text]
    rfl
  rw [same, readField, found]
  dsimp only
  rw [skip_blanks_self rfl]
  split
  case h_2 same =>
    cases same
    rw [blank]
    cases readValue room text <;> rfl
  case h_3 other => exact absurd rfl (other _)
  next same => simp at same

/-- A list of fields starts with its first one, in front of a comma or the end of the list. -/
theorem fields_first (level : Nat) (field : String × Json) (more : List (String × Json)) :
    ∃ after, indentedFields level (field :: more) ++ (lineAt outer ++ '\x7d' :: rest) =
      lineAt level ++ (quoted field.1 ++ ':' :: ' ' :: (indented level field.2 ++ after)) := by
  cases more with
  | nil => exact ⟨_, by rw [indentedFields, List.append_assoc, List.append_assoc]; rfl⟩
  | cons next more =>
      refine ⟨',' :: (indentedFields level (next :: more) ++ (lineAt outer ++ '\x7d' :: rest)), ?_⟩
      rw [indented_fields_cons]
      simp

theorem fields_open (level : Nat) (field : String × Json) (more : List (String × Json)) :
    ∃ first text, skipBlanks (indentedFields level (field :: more) ++ (lineAt outer ++ '\x7d' :: rest)) =
      first :: text ∧ first ≠ '\x7d' := by
  obtain ⟨after, same⟩ := fields_first outer rest level field more
  rw [same, skip_blanks_quoted]
  exact ⟨_, _, rfl, by decide⟩

theorem fields_fit (level : Nat) (fields : List (String × Json)) :
    fields.length ≤
      (skipBlanks (indentedFields level fields ++ (lineAt outer ++ '\x7d' :: rest))).length := by
  match fields with
  | [] => exact Nat.zero_le _
  | [(key, value)] =>
      rw [indentedFields, List.append_assoc, List.append_assoc, skip_blanks_quoted]
      simp [quoted]
  | field :: next :: more =>
      have each := fields_length level (next :: more)
      rw [indented_fields_cons, List.append_assoc, List.append_assoc, skip_blanks_quoted]
      simp only [List.length_append, List.length_cons, List.cons_append] at each ⊢
      omega

theorem read_fields_last {field : String × Json} (reads : ReadsAt room level field.2) (fuel : Nat)
    (read : List (String × Json)) :
    readFields (readValue room) (fuel + 1) read
        (skipBlanks (indentedFields level [field] ++ (lineAt outer ++ '\x7d' :: rest))) =
      .ok ((field :: read).reverse, rest) := by
  rw [indentedFields, List.append_assoc, List.append_assoc, skip_blanks_quoted, List.cons_append,
    List.cons_append, readFields, read_field_quoted, reads _ (ends_number_line outer _)]
  dsimp only [Except.map]
  rw [skip_blanks_line, skip_blanks_self rfl]
  rfl

/-- One field is read, and the reader goes on with the next one. -/
theorem read_fields_next {field next : String × Json} (reads : ReadsAt room level field.2)
    (fuel : Nat) (read more : List (String × Json)) :
    readFields (readValue room) (fuel + 1) read
        (skipBlanks (indentedFields level (field :: next :: more) ++
          (lineAt outer ++ '\x7d' :: rest))) =
      readFields (readValue room) fuel (field :: read)
        (skipBlanks (indentedFields level (next :: more) ++ (lineAt outer ++ '\x7d' :: rest))) := by
  obtain ⟨first, text, opened, unclosed⟩ := fields_open outer rest level next more
  rw [indented_fields_cons, List.append_assoc, List.append_assoc, skip_blanks_quoted,
    List.cons_append, List.cons_append, List.append_assoc, List.cons_append, readFields,
    read_field_quoted, reads _ (ends_number_comma _)]
  dsimp only [Except.map]
  rw [skip_blanks_self rfl, opened]
  split
  case h_3 same =>
    cases same
    rw [opened]
    split
    · next none => cases none
    · next closed =>
        cases closed
        exact absurd rfl unclosed
    · rfl
  case h_4 other => exact absurd rfl (other _)
  all_goals next same => simp at same

theorem read_fields_indented {fields : List (String × Json)}
    (each : ∀ field ∈ fields, ReadsAt room level field.2) (present : fields ≠ []) {fuel : Nat}
    (enough : fields.length ≤ fuel) (read : List (String × Json)) :
    readFields (readValue room) fuel read
        (skipBlanks (indentedFields level fields ++ (lineAt outer ++ '\x7d' :: rest))) =
      .ok (read.reverse ++ fields, rest) := by
  induction fields generalizing fuel read with
  | nil => exact absurd rfl present
  | cons field more ih =>
      obtain ⟨fuel, rfl⟩ : ∃ less, fuel = less + 1 := ⟨fuel - 1, by simp at enough; omega⟩
      have reads := each field List.mem_cons_self
      cases more with
      | nil => rw [read_fields_last outer rest reads, List.reverse_cons]
      | cons next more =>
          rw [read_fields_next outer rest reads,
            ih (fun other member => each other (List.mem_cons_of_mem _ member))
              (List.cons_ne_nil _ _) (by simpa using enough)]
          simp

end

theorem read_array_open {readItem : List Char → Read Json} {text next : List Char} {first : Char}
    (opened : skipBlanks text = first :: next) (unclosed : first ≠ ']') :
    readArray readItem text = (readItems readItem (skipBlanks text).length [] (skipBlanks text)).map
      fun found => (.array found.1, found.2) := by
  unfold readArray
  rw [opened]
  split
  · next same => cases same
  · next same =>
      cases same
      exact absurd rfl unclosed
  · cases readItems readItem (first :: next).length [] (first :: next) <;> rfl

theorem read_object_open {readItem : List Char → Read Json} {text next : List Char} {first : Char}
    (opened : skipBlanks text = first :: next) (unclosed : first ≠ '\x7d') :
    readObject readItem text =
      (readFields readItem (skipBlanks text).length [] (skipBlanks text)).map
        fun found => (.object (Table.ofPairs found.1), found.2) := by
  unfold readObject
  rw [opened]
  split
  · next same => cases same
  · next same =>
      cases same
      exact absurd rfl unclosed
  · cases readFields readItem (first :: next).length [] (first :: next) <;> rfl

section

variable {room level : Nat}

/-- The text of an array that is not empty is read item by item. -/
theorem read_value_array {wide : Nat} {item : Json} (opens : ReadsAt wide (level + 1) item)
    (more : List Json) (rest : List Char) :
    readValue (room + 1) (indented level (.array (item :: more)) ++ rest) =
      (readItems (readValue room)
        (skipBlanks (indentedItems (level + 1) (item :: more) ++ (lineAt level ++ ']' :: rest))).length
        [] (skipBlanks (indentedItems (level + 1) (item :: more) ++ (lineAt level ++ ']' :: rest)))).map
          fun found => (.array found.1, found.2) := by
  have opening : indented level (.array (item :: more)) ++ rest =
      '[' :: (indentedItems (level + 1) (item :: more) ++ (lineAt level ++ ']' :: rest)) := by
    simp [indented]
  obtain ⟨first, text, opened, unclosed⟩ := items_open level rest opens more
  rw [opening]
  exact read_array_open opened unclosed

theorem read_value_object (field : String × Json) (more : List (String × Json)) (rest : List Char) :
    readValue (room + 1) (indented level (.object (field :: more)) ++ rest) =
      (readFields (readValue room)
        (skipBlanks (indentedFields (level + 1) (field :: more) ++
          (lineAt level ++ '\x7d' :: rest))).length [] (skipBlanks
            (indentedFields (level + 1) (field :: more) ++ (lineAt level ++ '\x7d' :: rest)))).map
          fun found => (.object (Table.ofPairs found.1), found.2) := by
  have opening : indented level (.object (field :: more)) ++ rest =
      '\x7b' :: (indentedFields (level + 1) (field :: more) ++ (lineAt level ++ '\x7d' :: rest)) := by
    simp [indented]
  obtain ⟨first, text, opened, unclosed⟩ := fields_open level rest (level + 1) field more
  rw [opening]
  exact read_object_open opened unclosed

theorem array_reads {items : List Json} (each : ∀ item ∈ items, ReadsAt room (level + 1) item) :
    ReadsAt (room + 1) level (.array items) := by
  intro rest _
  cases items with
  | nil => rfl
  | cons item more =>
      rw [read_value_array (each item List.mem_cons_self), read_items_indented level rest each
        (List.cons_ne_nil _ _) (items_fit (level + 1) level (item :: more) rest)]
      rfl

theorem object_reads {fields : List (String × Json)} (distinct : Table.Distinct fields)
    (each : ∀ field ∈ fields, ReadsAt room (level + 1) field.2) :
    ReadsAt (room + 1) level (.object fields) := by
  intro rest _
  cases fields with
  | nil => rfl
  | cons field more =>
      rw [read_value_object, read_fields_indented level rest each (List.cons_ne_nil _ _)
        (fields_fit level rest (level + 1) (field :: more))]
      change Except.ok (Json.object (Table.ofPairs (field :: more)), rest) = _
      rw [Table.of_pairs_self distinct]

end

/-- The text of a readable value reads back at any level. -/
theorem Readable.reads {room : Nat} {json : Json} (readable : Readable room json) (level : Nat) :
    ReadsAt room level json := by
  induction readable generalizing level with
  | null room =>
      intro rest _
      obtain ⟨array, object, reader⟩ := read_value_with room
      rw [reader]
      rfl
  | bool room value =>
      intro rest _
      obtain ⟨array, object, reader⟩ := read_value_with room
      rw [reader]
      cases value <;> rfl
  | integer room inWord =>
      intro rest ends
      obtain ⟨array, object, reader⟩ := read_value_with room
      rw [reader, indented]
      exact read_with_integer inWord ends
  | float room back =>
      intro rest ends
      obtain ⟨array, object, reader⟩ := read_value_with room
      rw [reader, indented]
      exact read_with_float back ends
  | string room value =>
      intro rest _
      obtain ⟨array, object, reader⟩ := read_value_with room
      rw [reader, indented]
      exact read_with_string value rest
  | array each ih => exact array_reads fun item member => ih item member (level + 1)
  | object distinct each ih =>
      exact object_reads distinct fun field member => ih field member (level + 1)

/-- A readable value is what its indented text is parsed to. -/
theorem parse_indented {json : Json} (readable : Readable nestingLimit json) :
    parse json.toIndentedText = .ok json := by
  have read := readable.reads 0 [] ends_number_nil
  rw [List.append_nil] at read
  unfold parse toIndentedText
  dsimp only
  rw [String.toList_ofList, read]
  rfl

end ScriptSandbox.Json
