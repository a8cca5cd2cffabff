import ScriptSandbox.Proofs.Host.FileStore

/-!
A store file stands in for a store in memory. As long as only whole numbers and values that are not
nested too deep are saved, the two give the same answers to the same calls, whatever handles the
calls on the file go through.
-/

namespace ScriptSandbox

/-- One use of a store: something is loaded, or a value is saved as it stands in a heap. -/
inductive StoreCall where
  | load (key : String)
  | save (key : String) (heap : Heap) (value : Value)

namespace Json

/-- Whether a scalar is anything but a fraction or a large number. -/
def isSmall : Json → Bool
  | .float _ => false
  | .integer value => value.natAbs < twoTo 53
  | _ => true

/-- The only numbers in a value are integers below 2^53 in magnitude. -/
def HoldsSmall (json : Json) : Prop :=
  ∀ scalar ∈ json.scalars, scalar.isSmall = true

instance (json : Json) : Decidable json.HoldsSmall :=
  inferInstanceAs (Decidable (∀ scalar ∈ json.scalars, scalar.isSmall = true))

theorem HoldsSmall.accepts {json : Json} (small : json.HoldsSmall) (accepted : Number → Prop) :
    json.Accepts accepted := by
  intro number member
  cases small _ member

end Json

namespace StoreCall

/-- A call that a store file answers as well as a store in memory. -/
def Fits : StoreCall → Prop
  | .load _ => True
  | .save _ heap value =>
      heap.WellKeyed ∧ (heap.snapshot value).depth ≤ 126 ∧ (heap.snapshot value).HoldsSmall

end StoreCall

namespace Store

/-- The same store through a handle with a path of its own. -/
def through (path : String) : Store → Store
  | .memory entries => .memory entries
  | .file _ place => .file path place

/-- What a store answers to a call, and the store afterwards. A save that succeeds answers with
nothing. -/
def answer (store : Store) : StoreCall → Except StoreFault (Option Json) × Store
  | .load key => (store.get? key, store)
  | .save key heap value =>
      match store.put key (heap.snapshot value) with
      | .error fault => (.error fault, store)
      | .ok next => (.ok none, next)

/-- The answers to calls one after another, each through the handle that comes with it. -/
def answers : Store → List (String × StoreCall) → List (Except StoreFault (Option Json))
  | _, [] => []
  | store, (path, call) :: rest =>
      let (found, next) := (store.through path).answer call
      found :: next.answers rest

/-- A place whose text holds the entries of a store in memory, and that can be written. -/
structure Mirrors (place : Place) (entries : Table Json) : Prop where
  distinct : Table.Distinct entries
  readable : ∀ entry ∈ entries, Json.Readable valueLimit entry.2
  loads : ∀ path, readFile path place = .ok entries
  writable : ∀ text, place.write text = .ok (.present text)

theorem absent_mirrors : Mirrors .absent [] :=
  ⟨Table.distinct_nil, fun _ none => (nomatch none), fun _ => rfl, fun _ => rfl⟩

theorem written_mirrors {entries : Table Json} (distinct : Table.Distinct entries)
    (readable : ∀ entry ∈ entries, Json.Readable valueLimit entry.2) :
    Mirrors (.present (Json.object entries).toIndentedText) entries :=
  ⟨distinct, readable, read_file_written distinct readable, fun _ => rfl⟩

theorem put_mirrored {place : Place} {entries : Table Json} (mirrors : Mirrors place entries)
    (path key : String) (value : Json) :
    (file path place).put key value =
      .ok (file path (.present (Json.object (entries.set key value)).toIndentedText)) := by
  rw [put, mirrors.loads path]
  dsimp only
  rw [writeFile, mirrors.writable]

/-- One call keeps the two stores in step: they give the same answer, which is no fault. -/
theorem answer_mirrored {place : Place} {entries : Table Json} (mirrors : Mirrors place entries)
    {call : StoreCall} (fits : call.Fits) (path : String) :
    ∃ found nextPlace nextEntries,
      (file path place).answer call = (.ok found, file path nextPlace) ∧
      (memory entries).answer call = (.ok found, memory nextEntries) ∧
      Mirrors nextPlace nextEntries := by
  cases call with
  | load key =>
      refine ⟨entries.get? key, place, entries, ?_, rfl, mirrors⟩
      rw [answer, get_file (mirrors.loads path)]
  | save key heap value =>
      obtain ⟨keyed, shallow, small⟩ := fits
      have readable : Json.Readable valueLimit (heap.snapshot value) :=
        (Heap.snapshot_shaped keyed shallow).accepting (small.accepts _)
      have each : ∀ entry ∈ entries.set key (heap.snapshot value),
          Json.Readable valueLimit entry.2 := by
        intro entry member
        rcases Table.mem_set mirrors.distinct member with rfl | ⟨old, -⟩
        · exact readable
        · exact mirrors.readable entry old
      refine ⟨none, _, entries.set key (heap.snapshot value), ?_, rfl,
        written_mirrors (Table.set_distinct mirrors.distinct key _) each⟩
      rw [answer, put_mirrored mirrors]

theorem answers_mirrored {calls : List (String × StoreCall)} (fits : ∀ call ∈ calls, call.2.Fits)
    {place : Place} {entries : Table Json} (mirrors : Mirrors place entries) (path : String) :
    (file path place).answers calls = (memory entries).answers calls ∧
      ∀ found ∈ (file path place).answers calls, found.isOk = true := by
  induction calls generalizing place entries path with
  | nil => exact ⟨rfl, fun _ none => nomatch none⟩
  | cons first rest ih =>
      obtain ⟨handle, call⟩ := first
      obtain ⟨found, nextPlace, nextEntries, filed, remembered, still⟩ :=
        answer_mirrored mirrors (fits _ List.mem_cons_self) handle
      obtain ⟨same, succeed⟩ :=
        ih (fun other member => fits other (List.mem_cons_of_mem _ member)) still handle
      rw [answers, answers, through, through, filed, remembered]
      dsimp only
      refine ⟨by rw [same], fun found member => ?_⟩
      rcases List.mem_cons.mp member with rfl | later
      · rfl
      · exact succeed found later

/-- On a file that is missing at first, calls through any handles are answered as a store in memory
answers them, and none of them fails. -/
theorem file_answers_as_memory {calls : List (String × StoreCall)}
    (fits : ∀ call ∈ calls, call.2.Fits) (path : String) :
    (file path .absent).answers calls = empty.answers calls ∧
      ∀ found ∈ (file path .absent).answers calls, found.isOk = true :=
  answers_mirrored fits absent_mirrors path

/-- An array with NaN, a function, a number and itself in it, and a record around it. -/
def mixedHeap : Heap :=
  ⟨#[#[.number .nan, .function 0, .number (.ofNat 7), .array 0]],
    #[[("a", .array 0), ("\n\"", .string "\\")]], #[]⟩

/-- Two handles on one file, with a value saved over another. -/
theorem file_answers_as_memory_shared :
    (file "a.json" .absent).answers [("a.json", .save "k" mixedHeap (.array 0)),
        ("b.json", .load "k"), ("b.json", .save "k" mixedHeap (.record 0)), ("a.json", .load "k"),
        ("a.json", .load "l")] =
      empty.answers [("a.json", .save "k" mixedHeap (.array 0)), ("b.json", .load "k"),
        ("b.json", .save "k" mixedHeap (.record 0)), ("a.json", .load "k"), ("a.json", .load "l")] := by
  refine (file_answers_as_memory ?_ "a.json").1
  have array : (StoreCall.save "k" mixedHeap (.array 0)).Fits :=
    ⟨by decide, by decide +kernel, by decide +kernel⟩
  have record : (StoreCall.save "k" mixedHeap (.record 0)).Fits :=
    ⟨by decide, by decide +kernel, by decide +kernel⟩
  simp only [List.forall_mem_cons]
  exact ⟨array, trivial, record, trivial, trivial, fun _ none => nomatch none⟩

end Store

end ScriptSandbox
