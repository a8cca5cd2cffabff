import ScriptSandbox.Host.Store
import ScriptSandbox.Proofs.Json.TooDeep

/-!
What a store file holds after something was put into it. Every access reads the whole file and every
put writes it anew, so an entry survives exactly as far as its text reads back, and one value nested
too deep makes all entries unreadable.
-/

namespace ScriptSandbox

namespace Store

/-- How deep the values in a store file may be nested; the file is a container itself. -/
def valueLimit : Nat := 126

theorem object_readable {entries : Table Json} (distinct : Table.Distinct entries)
    (each : ∀ entry ∈ entries, Json.Readable valueLimit entry.2) :
    Json.Readable Json.nestingLimit (.object entries) :=
  .object distinct each

theorem read_file_written {entries : Table Json} (distinct : Table.Distinct entries)
    (each : ∀ entry ∈ entries, Json.Readable valueLimit entry.2) (path : String) :
    readFile path (.present (Json.object entries).toIndentedText) = .ok entries := by
  unfold readFile Place.read
  dsimp only
  rw [Json.parse_indented (object_readable distinct each)]

/-- The entries of a file that loads name nothing twice and are nested no deeper than the reader
allows. -/
theorem read_file_shaped {path : String} {place : Place} {entries : Table Json}
    (loads : readFile path place = .ok entries) :
    Table.Distinct entries ∧ ∀ entry ∈ entries, Json.Shaped valueLimit entry.2 := by
  unfold readFile at loads
  split at loads
  · cases loads
    exact ⟨Table.distinct_nil, fun entry none => nomatch none⟩
  · cases loads
  · split at loads
    · cases loads
    · next parsed =>
        cases loads
        cases Json.parse_shaped parsed with
        | object distinct each => exact ⟨distinct, each⟩
    · cases loads

theorem put_file_cases {path key : String} {place : Place} {value : Json} {store : Store}
    (saved : (file path place).put key value = .ok store) :
    ∃ entries, readFile path place = .ok entries ∧
      store = file path (.present (Json.object (entries.set key value)).toIndentedText) := by
  unfold put at saved
  dsimp only at saved
  split at saved
  · cases saved
  · next entries loads =>
      refine ⟨entries, loads, ?_⟩
      unfold writeFile Place.write at saved
      cases place <;> cases saved <;> rfl

section

variable {path key : String} {place : Place} {heap : Heap} {value : Value} {entries : Table Json}
  (keyed : heap.WellKeyed) (loads : readFile path place = .ok entries)
  (floats : (heap.snapshot value).Accepts Json.ReadsBack)
  (others : ∀ other json, other ≠ key → entries.get? other = some json →
    json.Accepts Json.ReadsBack)
include keyed loads floats others

/-- All entries after a put are readable with room for the new one and for what a file can hold. -/
theorem entries_readable {room : Nat} (wide : valueLimit ≤ room)
    (shallow : (heap.snapshot value).depth ≤ room) :
    ∀ entry ∈ entries.set key (heap.snapshot value), Json.Readable room entry.2 := by
  obtain ⟨distinct, each⟩ := read_file_shaped loads
  intro entry member
  rcases Table.mem_set distinct member with rfl | ⟨old, other⟩
  · exact (Heap.snapshot_shaped keyed shallow).accepting floats
  · have shaped := each entry old
    have read := others entry.1 entry.2 other (Table.get_of_mem distinct old)
    exact (shaped.within (Nat.le_trans shaped.depth_le wide)).accepting read

theorem read_file_after_put (shallow : (heap.snapshot value).depth ≤ valueLimit) :
    readFile path (.present (Json.object (entries.set key (heap.snapshot value))).toIndentedText) =
      .ok (entries.set key (heap.snapshot value)) :=
  read_file_written (Table.set_distinct (read_file_shaped loads).1 key _)
    (entries_readable keyed loads floats others (Nat.le_refl _) shallow) path

theorem read_file_too_deep (deep : valueLimit < (heap.snapshot value).depth) :
    ∃ fault, readFile path
        (.present (Json.object (entries.set key (heap.snapshot value))).toIndentedText) =
          .error (.unreadable fault) ∧ fault.reason = .nestedTooDeep := by
  have readable : Json.Readable ((heap.snapshot value).depth + 1)
      (.object (entries.set key (heap.snapshot value))) :=
    .object (Table.set_distinct (read_file_shaped loads).1 key _)
      (entries_readable keyed loads floats others (Nat.le_of_lt deep) (Nat.le_refl _))
  have nested : Json.nestingLimit < (Json.object (entries.set key (heap.snapshot value))).depth := by
    have member := Table.mem_of_get (Table.get_set_self entries key (heap.snapshot value))
    have deepest := Json.fields_depth_le.mp (Nat.le_refl _) _ member
    exact Nat.succ_lt_succ (Nat.lt_of_lt_of_le deep deepest)
  obtain ⟨fault, unparsed, reason⟩ := Json.parse_too_deep readable nested
  refine ⟨fault, ?_, reason⟩
  unfold readFile Place.read
  dsimp only
  rw [unparsed]

end

theorem get_file {path : String} {place : Place} {entries : Table Json}
    (loads : readFile path place = .ok entries) (key : String) :
    (file path place).get? key = .ok (entries.get? key) := by
  rw [get?, Store.entries, loads]

theorem get_file_error {path : String} {place : Place} {fault : StoreFault}
    (fails : readFile path place = .error fault) (key : String) :
    (file path place).get? key = .error fault := by
  rw [get?, Store.entries, fails]

/-- What can be got after a put that succeeded, given that all floats in the file read back. If the
value is not nested too deep, it is there, and every other entry is as before. If it is, nothing can
be got any more. -/
theorem get_after_put {path key : String} {place : Place} {heap : Heap} {value : Value}
    {entries : Table Json} {store : Store} (keyed : heap.WellKeyed)
    (loads : readFile path place = .ok entries)
    (floats : (heap.snapshot value).Accepts Json.ReadsBack)
    (others : ∀ other json, other ≠ key → entries.get? other = some json →
      json.Accepts Json.ReadsBack)
    (saved : (file path place).put key (heap.snapshot value) = .ok store) :
    ((heap.snapshot value).depth ≤ 126 →
      store.get? key = .ok (some (heap.snapshot value)) ∧
      ∀ other, other ≠ key →
        ∃ found, (file path place).get? other = .ok found ∧ store.get? other = .ok found) ∧
    (126 < (heap.snapshot value).depth →
      ∀ other, ∃ fault, store.get? other = .error (.unreadable fault) ∧
        fault.reason = .nestedTooDeep) := by
  obtain ⟨loaded, loadsToo, rfl⟩ := put_file_cases saved
  cases loads.symm.trans loadsToo
  refine ⟨fun shallow => ?_, fun deep other => ?_⟩
  · have written := read_file_after_put keyed loads floats others shallow
    refine ⟨?_, fun other differs => ⟨entries.get? other, get_file loads other, ?_⟩⟩
    · rw [get_file written, Table.get_set_self]
    · rw [get_file written, Table.get_set_other _ _ _ _ differs]
  · obtain ⟨fault, unread, reason⟩ := read_file_too_deep keyed loads floats others deep
    exact ⟨fault, get_file_error unread other, reason⟩

/-- An array that holds 0.5, a record and itself. -/
def cyclicHeap : Heap :=
  ⟨#[#[.number (.ofRank false 0x3fe0000000000000), .record 0, .array 0]],
    #[[("a", .null), ("b", .string "\"")]], #[]⟩

/-- A file that holds 1.5. -/
def heldEntries : Table Json :=
  [("old", .float (.ofRank false 0x3ff8000000000000))]

theorem held_entries_load :
    readFile "store.json" (.present (Json.object heldEntries).toIndentedText) = .ok heldEntries := by
  refine read_file_written (by decide) ?_ _
  intro entry member
  cases List.mem_singleton.mp member
  exact .float _ (by decide +kernel)

theorem get_after_put_cyclic :
    ∃ store, (file "store.json" (.present (Json.object heldEntries).toIndentedText)).put "new"
        (cyclicHeap.snapshot (.array 0)) = .ok store ∧
      store.get? "new" = .ok (some (cyclicHeap.snapshot (.array 0))) ∧
      store.get? "old" = .ok (some (.float (.ofRank false 0x3ff8000000000000))) := by
  have keyed : cyclicHeap.WellKeyed := by decide
  have floats : (cyclicHeap.snapshot (.array 0)).Accepts Json.ReadsBack := by decide +kernel
  have others : ∀ other json, other ≠ "new" → heldEntries.get? other = some json →
      json.Accepts Json.ReadsBack := by
    intro other json _ found
    cases List.mem_singleton.mp (Table.mem_of_get found)
    decide +kernel
  have shallow : (cyclicHeap.snapshot (.array 0)).depth ≤ 126 := by decide +kernel
  have saved : ∃ store, (file "store.json"
      (.present (Json.object heldEntries).toIndentedText)).put "new"
        (cyclicHeap.snapshot (.array 0)) = .ok store := by
    rw [put, held_entries_load]
    exact ⟨_, rfl⟩
  obtain ⟨store, saved⟩ := saved
  obtain ⟨new, kept⟩ := (get_after_put keyed held_entries_load floats others saved).1 shallow
  obtain ⟨found, before, after⟩ := kept "old" (by decide)
  rw [get_file held_entries_load] at before
  cases before
  exact ⟨store, saved, new, after⟩

/-- The float that was got. -/
def foundFloat? : Except StoreFault (Option Json) → Option Number
  | .ok (some (.float number)) => some number
  | _ => none

theorem eq_of_found_float {answer : Except StoreFault (Option Json)} {number : Number}
    (found : foundFloat? answer = some number) : answer = .ok (some (.float number)) := by
  unfold foundFloat? at found
  split at found
  · cases found
    rfl
  · cases found

/-- So many arrays, each but the first holding the one before it. -/
def nestedArrays (count : Nat) : Heap :=
  ⟨((List.range count).map fun handle =>
    if handle = 0 then #[] else #[.array (handle - 1)]).toArray, #[], #[]⟩

/-- Two values that a store file takes and does not give back: arrays nested 127 deep, after which
no key can be got, and a fraction whose text is read as its neighbour. -/
theorem get_after_put_differs :
    (∃ store, (file "store.json" .absent).put "k" ((nestedArrays 127).snapshot (.array 126)) =
        .ok store ∧
      ∀ key, ∃ fault, store.get? key = .error fault) ∧
    (∃ store back, (file "store.json" .absent).put "k"
        (Heap.empty.snapshot (.number (.ofRank false 0x3fee3fa85468ae3c))) = .ok store ∧
      store.get? "k" = .ok (some (.float back)) ∧ back ≠ .ofRank false 0x3fee3fa85468ae3c) := by
  have loads : readFile "store.json" .absent = .ok [] := rfl
  refine ⟨⟨_, rfl, fun key => ?_⟩, ⟨_, .ofRank false 0x3fee3fa85468ae3d, rfl, ?_, by decide +kernel⟩⟩
  · have keyed : (nestedArrays 127).WellKeyed := by decide
    have floats : ((nestedArrays 127).snapshot (.array 126)).Accepts Json.ReadsBack := by
      decide +kernel
    have others : ∀ (other : String) (json : Json), other ≠ "k" → Table.get? [] other = some json →
        json.Accepts Json.ReadsBack := fun _ _ _ none => nomatch none
    have deep : valueLimit < ((nestedArrays 127).snapshot (.array 126)).depth := by decide +kernel
    obtain ⟨fault, unread, -⟩ := read_file_too_deep keyed loads floats others deep
    exact ⟨_, get_file_error unread key⟩
  · exact eq_of_found_float (by decide +kernel)

end Store

end ScriptSandbox
