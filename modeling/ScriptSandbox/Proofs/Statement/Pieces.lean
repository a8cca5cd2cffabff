import ScriptSandbox.Statement.Pieces

/-!
The cut of program text at its terminators. Texts whose braces match come apart again when they are
joined by a terminator, and a text with all its terminators inside braces is one piece.
-/

namespace ScriptSandbox

namespace Text

/-- Whether a text neither starts nor ends with a blank. -/
def Trimmed (text : List Char) : Prop :=
  (∀ c ∈ text.head?, isBlank c = false) ∧ ∀ c ∈ text.getLast?, isBlank c = false

theorem trim_start_of_head {text : List Char} (starts : ∀ c ∈ text.head?, isBlank c = false) :
    trimStart text = text := by
  cases text with
  | nil => rfl
  | cons c rest => simp [trimStart, starts c rfl]

theorem trim_end_of_last {text : List Char} (ends : ∀ c ∈ text.getLast?, isBlank c = false) :
    trimEnd text = text := by
  rw [← List.head?_reverse] at ends
  have same := trim_start_of_head ends
  rw [trimStart] at same
  rw [trimEnd, same, List.reverse_reverse]

theorem trim_of_trimmed {text : List Char} (trimmed : Trimmed text) : trim text = text := by
  rw [trim, trim_start_of_head trimmed.1, trim_end_of_last trimmed.2]

theorem trim_padded {text : List Char} (trimmed : Trimmed text) :
    trim (' ' :: (text ++ [' '])) = text := by
  have space : isBlank ' ' = true := by decide
  have starts : trimStart (' ' :: (text ++ [' '])) = trimStart (text ++ [' ']) := by
    simp [trimStart, space]
  rw [trim, starts]
  cases text with
  | nil => decide
  | cons first more =>
      have kept : trimStart (first :: more ++ [' ']) = first :: more ++ [' '] :=
        trim_start_of_head trimmed.1
      have dropped : trimEnd (first :: more ++ [' ']) = trimEnd (first :: more) := by
        simp [trimEnd, space]
      rw [kept, dropped, trim_end_of_last trimmed.2]

end Text

namespace Statement

open Text

theorem brace_depth_of_ne {c : Char} (opens : c ≠ '\x7b') (closes : c ≠ '\x7d') (depth : Nat) :
    braceDepth depth c = depth := by
  rw [braceDepth, if_neg opens, if_neg closes]

/-- The characters of a class without braces leave the depth as it is. -/
theorem brace_depth_of_class {isOf : Char → Bool} (opens : isOf '\x7b' = false)
    (closes : isOf '\x7d' = false) {c : Char} (member : isOf c = true) (depth : Nat) :
    braceDepth depth c = depth := by
  apply brace_depth_of_ne
  · rintro rfl
    rw [opens] at member
    cases member
  · rintro rfl
    rw [closes] at member
    cases member

theorem brace_depth_terminator {c : Char} (ends : isTerminator c = true) (depth : Nat) :
    braceDepth depth c = depth :=
  brace_depth_of_class rfl rfl ends depth

/-- Whether a text read from a brace depth closes nothing below `floor`, ends there, and has no
terminator outside all braces. -/
def Sealed (floor : Nat) : Nat → List Char → Prop
  | depth, [] => depth = floor
  | depth, c :: rest =>
      (isTerminator c = true → 0 < depth) ∧ (c = '\x7d' → floor < depth) ∧
        Sealed floor (braceDepth depth c) rest

instance (floor depth : Nat) (text : List Char) : Decidable (Sealed floor depth text) :=
  match text with
  | [] => inferInstanceAs (Decidable (depth = floor))
  | c :: rest =>
      have := instDecidableSealed floor (braceDepth depth c) rest
      inferInstanceAs (Decidable ((isTerminator c = true → 0 < depth) ∧
        (c = '\x7d' → floor < depth) ∧ Sealed floor (braceDepth depth c) rest))

namespace Sealed

theorem append {floor depth : Nat} {first second : List Char} (front : Sealed floor depth first)
    (back : Sealed floor floor second) : Sealed floor depth (first ++ second) := by
  induction first generalizing depth with
  | nil =>
      cases front
      exact back
  | cons c rest ih => exact ⟨front.1, front.2.1, ih front.2.2⟩

/-- A text sealed at some depth is sealed one brace further inside. -/
theorem raise {floor depth : Nat} {text : List Char} (closed : Sealed floor depth text) :
    Sealed (floor + 1) (depth + 1) text := by
  induction text generalizing depth with
  | nil =>
      cases closed
      rfl
  | cons c rest ih =>
      obtain ⟨_, above, further⟩ := closed
      refine ⟨fun _ => Nat.succ_pos _, fun closing => Nat.succ_lt_succ (above closing), ?_⟩
      have shifted : braceDepth (depth + 1) c = braceDepth depth c + 1 := by
        unfold braceDepth
        split
        · rfl
        · split
          · next closing =>
              have := above closing
              omega
          · rfl
      rw [shifted]
      exact ih further

theorem closing_brace {floor depth : Nat} {text : List Char}
    (closed : Sealed (floor + 1) depth text) : Sealed floor depth (text ++ ['\x7d']) := by
  induction text generalizing depth with
  | nil =>
      cases closed
      exact ⟨fun _ => Nat.succ_pos _, fun _ => Nat.lt_succ_self _, rfl⟩
  | cons c rest ih =>
      refine ⟨closed.1, fun closing => ?_, ih closed.2.2⟩
      have := closed.2.1 closing
      omega

theorem braces {floor : Nat} {text : List Char} (closed : Sealed (floor + 1) (floor + 1) text) :
    Sealed floor floor ('\x7b' :: (text ++ ['\x7d'])) := by
  refine ⟨fun ends => absurd ends (by decide), fun same => absurd same (by decide), ?_⟩
  exact closed.closing_brace

theorem of_free {floor : Nat} {text : List Char}
    (free : ∀ c ∈ text, isTerminator c = false ∧ c ≠ '\x7b' ∧ c ≠ '\x7d') :
    Sealed floor floor text := by
  induction text with
  | nil => rfl
  | cons c rest ih =>
      obtain ⟨⟨unended, opens, closes⟩, others⟩ := List.forall_mem_cons.mp free
      refine ⟨fun ends => ?_, fun same => absurd same closes, ?_⟩
      · rw [unended] at ends
        cases ends
      · rw [brace_depth_of_ne opens closes]
        exact ih others

theorem terminator {floor : Nat} {c : Char} (ends : isTerminator c = true) :
    Sealed (floor + 1) (floor + 1) [c] := by
  refine ⟨fun _ => Nat.succ_pos _, fun same => ?_, brace_depth_terminator ends _⟩
  cases same
  cases ends

theorem depth {floor depth : Nat} {text : List Char} (closed : Sealed floor depth text) :
    text.foldl braceDepth depth = floor := by
  induction text generalizing depth with
  | nil => exact closed
  | cons c rest ih => exact ih closed.2.2

end Sealed

namespace Cutting

/-- A cut that started with some pieces already finished. -/
def after (cutting : Cutting) (done : List (List Char)) : Cutting :=
  { cutting with pieces := cutting.pieces ++ done }

theorem close_after (cutting : Cutting) (done : List (List Char)) :
    (cutting.after done).close = cutting.close.after done := by
  cases blank : (trim cutting.openPiece.reverse).isEmpty with
  | true => simp [close, after, blank]
  | false => simp [close, after, blank]

theorem step_after (cutting : Cutting) (done : List (List Char)) (c : Char) :
    (cutting.after done).step c = (cutting.step c).after done := by
  cases ends : isTerminator c && cutting.depth == 0 with
  | true =>
      have closes : (cutting.after done).step c = (cutting.after done).close := if_pos ends
      rw [closes, close_after, step, if_pos ends]
  | false => simp [step, after, ends]

theorem fold_after (text : List Char) (cutting : Cutting) (done : List (List Char)) :
    text.foldl step (cutting.after done) = (text.foldl step cutting).after done := by
  induction text generalizing cutting with
  | nil => rfl
  | cons c rest ih => rw [List.foldl_cons, step_after, ih, List.foldl_cons]

theorem step_depth (cutting : Cutting) (c : Char) :
    (cutting.step c).depth = braceDepth cutting.depth c := by
  unfold step
  split
  · next ends =>
      simp only [Bool.and_eq_true] at ends
      rw [brace_depth_terminator ends.1]
      rfl
  · rfl

theorem fold_depth (text : List Char) (cutting : Cutting) :
    (text.foldl step cutting).depth = text.foldl braceDepth cutting.depth := by
  induction text generalizing cutting with
  | nil => rfl
  | cons c rest ih => rw [List.foldl_cons, ih, step_depth, List.foldl_cons]

/-- A sealed text only extends the open piece. -/
theorem fold_sealed {floor depth : Nat} {text : List Char} (closed : Sealed floor depth text)
    (openPiece : List Char) (pieces : List (List Char)) :
    text.foldl step ⟨depth, openPiece, pieces⟩ = ⟨floor, text.reverse ++ openPiece, pieces⟩ := by
  induction text generalizing depth openPiece with
  | nil =>
      cases closed
      rfl
  | cons c rest ih =>
      obtain ⟨inside, _, further⟩ := closed
      have stays : ¬(isTerminator c && depth == 0) = true := by
        simp only [Bool.and_eq_true, beq_iff_eq, not_and]
        intro ends
        exact Nat.ne_of_gt (inside ends)
      rw [List.foldl_cons, step, if_neg stays, ih further, List.reverse_cons, List.append_assoc]
      rfl

end Cutting

/-- Whether a text read from a brace depth has no terminator outside all braces. A closing brace too
many is let through. -/
def Unbroken : Nat → List Char → Prop
  | _, [] => True
  | depth, c :: rest => (isTerminator c = true → 0 < depth) ∧ Unbroken (braceDepth depth c) rest

instance (depth : Nat) (text : List Char) : Decidable (Unbroken depth text) :=
  match text with
  | [] => inferInstanceAs (Decidable True)
  | c :: rest =>
      have := instDecidableUnbroken (braceDepth depth c) rest
      inferInstanceAs (Decidable ((isTerminator c = true → 0 < depth) ∧
        Unbroken (braceDepth depth c) rest))

theorem Unbroken.append {depth : Nat} {front back : List Char} (first : Unbroken depth front)
    (second : Unbroken (front.foldl braceDepth depth) back) : Unbroken depth (front ++ back) := by
  induction front generalizing depth with
  | nil => exact second
  | cons c rest ih => exact ⟨first.1, ih first.2 second⟩

theorem Cutting.fold_unbroken {depth : Nat} {text : List Char} (unbroken : Unbroken depth text)
    (openPiece : List Char) (pieces : List (List Char)) :
    text.foldl step ⟨depth, openPiece, pieces⟩ =
      ⟨text.foldl braceDepth depth, text.reverse ++ openPiece, pieces⟩ := by
  induction text generalizing depth openPiece with
  | nil => rfl
  | cons c rest ih =>
      have stays : ¬(isTerminator c && depth == 0) = true := by
        simp only [Bool.and_eq_true, beq_iff_eq, not_and]
        intro ends
        exact Nat.ne_of_gt (unbroken.1 ends)
      rw [List.foldl_cons, step, if_neg stays, ih unbroken.2]
      simp

/-- Text with matching braces and the text behind a terminator are cut each on its own. -/
theorem pieces_append {front : List Char} {c : Char} (matching : front.foldl braceDepth 0 = 0)
    (ends : isTerminator c = true) (rest : List Char) :
    pieces (front ++ c :: rest) = pieces front ++ pieces rest := by
  have outside := Cutting.fold_depth front ⟨0, [], []⟩
  rw [matching] at outside
  have restarts : (front.foldl Cutting.step ⟨0, [], []⟩).step c =
      (⟨0, [], []⟩ : Cutting).after (front.foldl Cutting.step ⟨0, [], []⟩).close.pieces := by
    rw [Cutting.step, if_pos (by simp [ends, outside]), Cutting.close, outside]
    rfl
  rw [pieces, List.foldl_append, List.foldl_cons, restarts, Cutting.fold_after,
    Cutting.close_after, Cutting.after, List.reverse_append]
  rfl

/-- An unbroken text is one piece, without the blanks around it. -/
theorem pieces_of_unbroken {text : List Char} (unbroken : Unbroken 0 text) (holds : trim text ≠ []) :
    pieces text = [trim text] := by
  simp [pieces, Cutting.fold_unbroken unbroken, Cutting.close, holds]

/-- A sealed text without blanks around it is one piece. -/
theorem pieces_of_sealed {text : List Char} (closed : Sealed 0 0 text) (trimmed : Trimmed text)
    (nonempty : text ≠ []) : pieces text = [text] := by
  have holds : text.isEmpty = false := by simpa using nonempty
  simp [pieces, Cutting.fold_sealed closed, Cutting.close, trim_of_trimmed trimmed, holds]

end Statement

end ScriptSandbox
