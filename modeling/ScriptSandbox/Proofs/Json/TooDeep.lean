import ScriptSandbox.Proofs.Json.Formed

/-!
Text nested beyond the reader's room is refused for that reason, wherever in the value the nesting
is: all that stands before it reads well.
-/

namespace ScriptSandbox.Json

/-- A value fits any room it is not nested too deep for. -/
theorem Formed.within {accepted : Number → Prop} {room wide : Nat} {json : Json}
    (formed : Formed accepted wide json) (shallow : json.depth ≤ room) :
    Formed accepted room json := by
  induction formed generalizing room with
  | null => exact .null room
  | bool _ value => exact .bool room value
  | integer _ inWord => exact .integer room inWord
  | float _ accepts => exact .float room accepts
  | string _ value => exact .string room value
  | array each ih =>
      rw [depth] at shallow
      obtain ⟨inner, rfl⟩ : ∃ inner, room = inner + 1 := ⟨room - 1, by omega⟩
      have bounded := items_depth_le.mp (Nat.le_of_succ_le_succ shallow)
      exact .array fun item member => ih item member (bounded item member)
  | object distinct each ih =>
      rw [depth] at shallow
      obtain ⟨inner, rfl⟩ : ∃ inner, room = inner + 1 := ⟨room - 1, by omega⟩
      have bounded := fields_depth_le.mp (Nat.le_of_succ_le_succ shallow)
      exact .object distinct fun field member => ih field member (bounded field member)

theorem Formed.depth_le {accepted : Number → Prop} {room : Nat} {json : Json}
    (formed : Formed accepted room json) : json.depth ≤ room := by
  induction formed with
  | null | bool | integer | float | string => exact Nat.zero_le _
  | array each ih => exact Nat.succ_le_succ (items_depth_le.mpr ih)
  | object distinct each ih => exact Nat.succ_le_succ (fields_depth_le.mpr ih)

/-- Reading stopped because containers are nested too deep. -/
def TooDeep {Result : Type} (read : Read Result) : Prop :=
  ∃ misread : Misread, read = .error misread ∧ misread.reason = .nestedTooDeep

theorem TooDeep.map {First Result : Type} {read : Read First} (deep : TooDeep read)
    (change : First × List Char → Result × List Char) : TooDeep (read.map change) := by
  obtain ⟨misread, rfl, reason⟩ := deep
  exact ⟨misread, rfl, reason⟩

section

variable {room wide level : Nat}

theorem read_items_too_deep {items : List Json} (each : ∀ item ∈ items, Readable wide item)
    (deeper : ∀ item ∈ items, room < item.depth → ∀ rest,
      TooDeep (readValue room (indented level item ++ rest)))
    (deep : room < itemsDepth items) {fuel : Nat} (enough : items.length ≤ fuel)
    (read : List Json) (outer : Nat) (rest : List Char) :
    TooDeep (readItems (readValue room) fuel read
      (skipBlanks (indentedItems level items ++ (lineAt outer ++ ']' :: rest)))) := by
  induction items generalizing fuel read with
  | nil => exact absurd deep (Nat.not_lt_zero _)
  | cons item more ih =>
      obtain ⟨fuel, rfl⟩ : ∃ less, fuel = less + 1 := ⟨fuel - 1, by simp at enough; omega⟩
      by_cases shallow : item.depth ≤ room
      · -- This item reads well, so a later one is nested too deep.
        have reads := Readable.reads ((each item List.mem_cons_self).within shallow) level
        cases more with
        | nil =>
            simp only [itemsDepth] at deep
            omega
        | cons next more =>
            have opens := (each next (List.mem_cons_of_mem _ List.mem_cons_self)).reads level
            have deepLater : room < itemsDepth (next :: more) := by
              rw [itemsDepth] at deep
              omega
            rw [read_items_next outer rest reads opens]
            exact ih (fun other member => each other (List.mem_cons_of_mem _ member))
              (fun other member => deeper other (List.mem_cons_of_mem _ member)) deepLater
              (by simpa using enough) (item :: read)
      · obtain ⟨after, same, -⟩ := items_first outer rest level item more
        obtain ⟨misread, failed, reason⟩ :=
          deeper item List.mem_cons_self (Nat.lt_of_not_le shallow) after
        refine ⟨misread, ?_, reason⟩
        rw [same, skip_blanks_line, readItems, read_value_skip, failed]

theorem read_fields_too_deep {fields : List (String × Json)}
    (each : ∀ field ∈ fields, Readable wide field.2)
    (deeper : ∀ field ∈ fields, room < field.2.depth → ∀ rest,
      TooDeep (readValue room (indented level field.2 ++ rest)))
    (deep : room < fieldsDepth fields) {fuel : Nat} (enough : fields.length ≤ fuel)
    (read : List (String × Json)) (outer : Nat) (rest : List Char) :
    TooDeep (readFields (readValue room) fuel read
      (skipBlanks (indentedFields level fields ++ (lineAt outer ++ '\x7d' :: rest)))) := by
  induction fields generalizing fuel read with
  | nil => exact absurd deep (Nat.not_lt_zero _)
  | cons field more ih =>
      obtain ⟨fuel, rfl⟩ : ∃ less, fuel = less + 1 := ⟨fuel - 1, by simp at enough; omega⟩
      by_cases shallow : field.2.depth ≤ room
      · have reads := Readable.reads ((each field List.mem_cons_self).within shallow) level
        cases more with
        | nil =>
            simp only [fieldsDepth] at deep
            omega
        | cons next more =>
            have deepLater : room < fieldsDepth (next :: more) := by
              rw [fieldsDepth] at deep
              omega
            rw [read_fields_next outer rest reads]
            exact ih (fun other member => each other (List.mem_cons_of_mem _ member))
              (fun other member => deeper other (List.mem_cons_of_mem _ member)) deepLater
              (by simpa using enough) (field :: read)
      · obtain ⟨after, same⟩ := fields_first outer rest level field more
        obtain ⟨misread, failed, reason⟩ :=
          deeper field List.mem_cons_self (Nat.lt_of_not_le shallow) after
        refine ⟨misread, ?_, reason⟩
        rw [same, skip_blanks_quoted, readFields, read_field_quoted, failed]
        rfl

end

/-- A readable value nested beyond the room is refused. -/
theorem Readable.too_deep {wide room : Nat} {json : Json} (readable : Readable wide json)
    (deep : room < json.depth) (level : Nat) (rest : List Char) :
    TooDeep (readValue room (indented level json ++ rest)) := by
  induction readable generalizing room level rest with
  | null | bool | integer | float | string => exact absurd deep (Nat.not_lt_zero _)
  | @array wide items each ih =>
      cases room with
      | zero => cases items <;> exact ⟨_, rfl, rfl⟩
      | succ room =>
          rw [depth] at deep
          cases items with
          | nil => simp [itemsDepth] at deep
          | cons item more =>
              rw [read_value_array (Readable.reads (each item List.mem_cons_self) (level + 1))]
              refine TooDeep.map ?_ _
              exact read_items_too_deep each (fun item member deeper rest => ih item member deeper _ rest)
                (by omega) (items_fit (level + 1) level (item :: more) rest) [] level rest
  | @object wide fields distinct each ih =>
      cases room with
      | zero => cases fields <;> exact ⟨_, rfl, rfl⟩
      | succ room =>
          rw [depth] at deep
          cases fields with
          | nil => simp [fieldsDepth] at deep
          | cons field more =>
              rw [read_value_object]
              refine TooDeep.map ?_ _
              exact read_fields_too_deep each
                (fun field member deeper rest => ih field member deeper _ rest) (by omega)
                (fields_fit level rest (level + 1) (field :: more)) [] level rest

/-- The text of a value that is nested too deep cannot be parsed. -/
theorem parse_too_deep {wide : Nat} {json : Json} (readable : Readable wide json)
    (deep : nestingLimit < json.depth) :
    ∃ fault, parse json.toIndentedText = .error fault ∧ fault.reason = .nestedTooDeep := by
  obtain ⟨misread, failed, reason⟩ := readable.too_deep deep 0 []
  rw [List.append_nil] at failed
  refine ⟨misread.toFault (indented 0 json), ?_, reason⟩
  unfold parse toIndentedText
  dsimp only
  rw [String.toList_ofList, failed]

end ScriptSandbox.Json
