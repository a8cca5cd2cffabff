import ScriptSandbox.Proofs.Expression.Effects
import ScriptSandbox.Proofs.Expression.Precedence

/-!
What compiling keeps of an expression. Read from left to right, an expression is a row of operands,
operators and parentheses. Its items are its operands in their order and its operators in some
order, nothing else, and there are items exactly when the parentheses pair up.
-/

namespace ScriptSandbox

/-- One part of an expression, an operand with what it comes to. -/
inductive Constituent where
  | operand (operand : Operand)
  | operator (operator : Operator)
  | opening
  | closing
deriving DecidableEq

def Item.operand? : Item → Option Operand
  | .literal value => some (.value value)
  | .reference name => some (.reference name)
  | .operator _ => none

def Item.operator? : Item → Option Operator
  | .operator found => some found
  | _ => none

namespace Constituent

def operand? : Constituent → Option Operand
  | .operand found => some found
  | _ => none

def operator? : Constituent → Option Operator
  | .operator found => some found
  | _ => none

def item? : Constituent → Option Item
  | .operand found => some found.toItem
  | .operator found => some (.operator found)
  | _ => none

/-- The items are those of the parts: all of them and no others, the operands in their order. -/
structure Kept (parts : List Constituent) (items : List Item) : Prop where
  all : items.Perm (parts.filterMap item?)
  operands : items.filterMap Item.operand? = parts.filterMap operand?
  operators : (items.filterMap Item.operator?).Perm (parts.filterMap operator?)

/-- Behind so many open parentheses, none of the parts closes one that is not open, and none stays
open at the end. -/
structure Balanced (depth : Nat) (parts : List Constituent) : Prop where
  opened : ∀ front, front <+: parts → front.count .closing ≤ depth + front.count .opening
  closed : parts.count .closing = depth + parts.count .opening

/-- How many parentheses are open behind a part; `none` when it closes one that is not open. -/
def depthBehind? (depth : Nat) : Constituent → Option Nat
  | .opening => some (depth + 1)
  | .closing => if depth = 0 then none else some (depth - 1)
  | _ => some depth

theorem balanced_nil {depth : Nat} : Balanced depth [] ↔ depth = 0 := by
  constructor
  · intro balanced
    exact balanced.closed.symm
  · rintro rfl
    refine ⟨?_, rfl⟩
    intro front start
    rw [List.prefix_nil.mp start]
    exact Nat.le_refl 0

/-- A part in front changes by how much the rest may close. -/
theorem balanced_cons_of_counts {depth next : Nat} {part : Constituent} {rest : List Constituent}
    (opened : ∀ front : List Constituent,
      (part :: front).count .closing ≤ depth + (part :: front).count .opening ↔
        front.count .closing ≤ next + front.count .opening)
    (closed : (part :: rest).count .closing = depth + (part :: rest).count .opening ↔
      rest.count .closing = next + rest.count .opening) :
    Balanced depth (part :: rest) ↔ Balanced next rest := by
  constructor
  · intro balanced
    refine ⟨?_, closed.mp balanced.closed⟩
    intro front start
    apply (opened front).mp
    exact balanced.opened _ (List.cons_prefix_cons.mpr ⟨rfl, start⟩)
  · intro balanced
    refine ⟨?_, closed.mpr balanced.closed⟩
    intro front start
    rcases List.prefix_cons_iff.mp start with rfl | ⟨shorter, rfl, behind⟩
    · exact Nat.zero_le _
    · exact (opened shorter).mpr (balanced.opened shorter behind)

theorem balanced_cons {depth : Nat} {part : Constituent} {rest : List Constituent} :
    Balanced depth (part :: rest) ↔ ∃ next ∈ part.depthBehind? depth, Balanced next rest := by
  cases part with
  | operand | operator =>
      simp only [depthBehind?, Option.mem_some_iff, exists_eq_left']
      apply balanced_cons_of_counts
      · intro front
        simp
      · simp
  | opening =>
      simp only [depthBehind?, Option.mem_some_iff, exists_eq_left']
      apply balanced_cons_of_counts
      · intro front
        simp
        omega
      · simp
        omega
  | closing =>
      by_cases none : depth = 0
      · -- The row that ends with this part closes one parenthesis too many.
        have early : ¬Balanced depth (.closing :: rest) := by
          intro balanced
          have start : [closing] <+: closing :: rest := List.prefix_append [closing] rest
          have first := balanced.opened [.closing] start
          simp [none] at first
        simp [depthBehind?, none] at early ⊢
        exact early
      · simp only [depthBehind?, if_neg none, Option.mem_some_iff, exists_eq_left']
        apply balanced_cons_of_counts
        · intro front
          simp
          omega
        · simp
          omega

end Constituent

namespace Yard

open Constituent

/-- The yard behind one more part; `none` when the part closes what is not open. -/
def accept? (yard : Yard) : Constituent → Option Yard
  | .operand found => some (yard.operand found.toItem)
  | .operator found => some (yard.operator found)
  | .opening => some yard.opening
  | .closing => yard.closing?

/-- The items of the parts behind what the yard already holds. -/
def arrange? (yard : Yard) : List Constituent → Option (List Item)
  | [] => yard.finish?
  | part :: rest => (yard.accept? part).bind fun accepted => accepted.arrange? rest

/-- How many parentheses wait to be closed. -/
def depth (yard : Yard) : Nat :=
  yard.waiting.count .parenthesis

theorem release_depth (arriving : Operator) (output : List Item) (waiting : List Waiting) :
    (release arriving output waiting).depth = waiting.count .parenthesis := by
  fun_induction release arriving output waiting with
  | case1 => rfl
  | case2 output top rest _ ih => rw [ih, List.count_cons_of_ne Waiting.noConfusion]
  | case3 => rfl

theorem close_from_depth (output : List Item) (waiting : List Waiting) :
    (closeFrom output waiting).map depth =
      if waiting.count .parenthesis = 0 then none else some (waiting.count .parenthesis - 1) := by
  fun_induction closeFrom output waiting with
  | case1 => rfl
  | case2 output rest => simp [depth]
  | case3 output top rest ih => rw [ih, List.count_cons_of_ne Waiting.noConfusion]

theorem drain_is_some (output : List Item) (waiting : List Waiting) :
    (drain output waiting).isSome = true ↔ waiting.count .parenthesis = 0 := by
  fun_induction drain output waiting with
  | case1 => simp
  | case2 => simp
  | case3 output top rest ih => rw [ih, List.count_cons_of_ne Waiting.noConfusion]

theorem accept_depth (yard : Yard) (part : Constituent) :
    (yard.accept? part).map depth = part.depthBehind? yard.depth := by
  cases part with
  | operand found => rfl
  | operator found =>
      have waits : (yard.operator found).depth = yard.depth := by
        rw [depth, operator, List.count_cons_of_ne Waiting.noConfusion]
        exact release_depth found yard.output yard.waiting
      exact congrArg some waits
  | opening => exact congrArg some List.count_cons_self
  | closing => exact close_from_depth yard.output yard.waiting

/-- Parts can be arranged exactly when their parentheses pair up with those that wait. -/
theorem arrange_is_some_iff {yard : Yard} {parts : List Constituent} :
    (yard.arrange? parts).isSome = true ↔ Balanced yard.depth parts := by
  induction parts generalizing yard with
  | nil => exact (drain_is_some yard.output yard.waiting).trans balanced_nil.symm
  | cons part rest ih =>
      rw [balanced_cons, ← accept_depth, arrange?]
      cases yard.accept? part with
      | none => simp
      | some accepted => simpa using ih

theorem accept_items {yard accepted : Yard} {part : Constituent}
    (accepts : yard.accept? part = some accepted) :
    accepted.items.Perm (part.item?.toList ++ yard.items) := by
  cases part with
  | operand found =>
      cases accepts
      exact .refl _
  | operator found =>
      cases accepts
      exact yard.operator_items found
  | opening =>
      cases accepts
      exact .refl _
  | closing => exact close_from_items accepts

theorem operand_of_operator (found : Operator) : (Item.operator found).operand? = none :=
  rfl

theorem accept_operands {yard accepted : Yard} {part : Constituent}
    (accepts : yard.accept? part = some accepted) :
    accepted.output.filterMap Item.operand? =
      part.operand?.toList ++ yard.output.filterMap Item.operand? := by
  cases part with
  | operand found =>
      cases accepts
      cases found <;> rfl
  | operator found =>
      cases accepts
      exact release_picked operand_of_operator found yard.output yard.waiting
  | opening =>
      cases accepts
      rfl
  | closing => exact close_from_picked operand_of_operator accepts

theorem picked_cons {Picked : Type} (pick : Constituent → Option Picked) (part : Constituent)
    (rest : List Constituent) :
    (part :: rest).filterMap pick = (pick part).toList ++ rest.filterMap pick := by
  rw [List.filterMap_cons]
  cases pick part <;> rfl

theorem arrange_items {yard : Yard} {parts : List Constituent} {items : List Item}
    (arranged : yard.arrange? parts = some items) :
    items.Perm (yard.items ++ parts.filterMap item?) := by
  induction parts generalizing yard with
  | nil =>
      rw [List.filterMap_nil, List.append_nil]
      exact drain_items arranged
  | cons part rest ih =>
      obtain ⟨accepted, accepts, later⟩ := Option.bind_eq_some_iff.mp arranged
      have first : (accepted.items ++ rest.filterMap item?).Perm
          (part.item?.toList ++ (yard.items ++ rest.filterMap item?)) := by
        rw [← List.append_assoc]
        exact (accept_items accepts).append_right _
      rw [picked_cons]
      exact ((ih later).trans first).trans (List.perm_append_comm_assoc ..)

theorem arrange_operands {yard : Yard} {parts : List Constituent} {items : List Item}
    (arranged : yard.arrange? parts = some items) :
    items.filterMap Item.operand? =
      (yard.output.filterMap Item.operand?).reverse ++ parts.filterMap operand? := by
  induction parts generalizing yard with
  | nil =>
      rw [List.filterMap_nil, List.append_nil]
      exact drain_picked operand_of_operator arranged
  | cons part rest ih =>
      obtain ⟨accepted, accepts, later⟩ := Option.bind_eq_some_iff.mp arranged
      have single : part.operand?.toList.reverse = part.operand?.toList := by
        cases part.operand? <;> rfl
      rw [ih later, accept_operands accepts, picked_cons, List.reverse_append, single,
        List.append_assoc]

theorem arrange_kept {parts : List Constituent} {items : List Item}
    (arranged : Yard.empty.arrange? parts = some items) : Kept parts items := by
  have all : items.Perm (parts.filterMap item?) := arrange_items arranged
  refine ⟨all, arrange_operands arranged, ?_⟩
  have among : (parts.filterMap item?).filterMap Item.operator? = parts.filterMap operator? := by
    rw [List.filterMap_filterMap]
    apply List.filterMap_congr
    intro part _
    cases part with
    | operand found => cases found <;> rfl
    | operator | opening | closing => rfl
  rw [← among]
  exact all.filterMap _

end Yard

namespace Machine

open Constituent

/-- The tokens of an expression as parts, from left to right. An operand is one token or a
capability with its argument tokens, and is read on the machine that the operands before it
leave. -/
inductive Reads (line : Nat) : List String → Machine → List Constituent → Machine → Prop
  | done (machine : Machine) : Reads line [] machine [] machine
  | operand {tokens rest : List String} {machine next final : Machine} {operand : Operand}
      {parts : List Constituent} (isOperand : IsOperand machine.scope tokens)
      (read : readOperand line tokens machine = some (operand, next))
      (later : Reads line rest next parts final) :
      Reads line (tokens ++ rest) machine (.operand operand :: parts) final
  | operator {token : String} {rest : List String} {machine final : Machine} {operator : Operator}
      {parts : List Constituent}
      (found : Lexeme.ofToken machine.scope token = .ok (.operator operator))
      (later : Reads line rest machine parts final) :
      Reads line (token :: rest) machine (.operator operator :: parts) final
  | opening {token : String} {rest : List String} {machine final : Machine}
      {parts : List Constituent} (found : Lexeme.ofToken machine.scope token = .ok .opening)
      (later : Reads line rest machine parts final) :
      Reads line (token :: rest) machine (.opening :: parts) final
  | closing {token : String} {rest : List String} {machine final : Machine}
      {parts : List Constituent} (found : Lexeme.ofToken machine.scope token = .ok .closing)
      (later : Reads line rest machine parts final) :
      Reads line (token :: rest) machine (.closing :: parts) final

/-- Compiling tokens that read as parts arranges the parts; where that fails, a parenthesis has no
partner. -/
theorem compile_with_reads {line : Nat} {tokens : List String} {machine final : Machine}
    {parts : List Constituent} (reads : Reads line tokens machine parts final) (yard : Yard) :
    match yard.arrange? parts with
    | some items => compileWith answerAll line tokens yard machine = (.ok items, final)
    | none => (compileWith answerAll line tokens yard machine).1 =
        .error (.malformed line .mismatchedParentheses) := by
  induction reads generalizing yard with
  | done machine =>
      rw [compileWith, Yard.arrange?]
      cases yard.finish? <;> rfl
  | operand isOperand read later ih =>
      rw [compile_with_operand isOperand read]
      exact ih _
  | operator found later ih =>
      rw [compileWith, found]
      exact ih _
  | opening found later ih =>
      rw [compileWith, found]
      exact ih _
  | closing found later ih =>
      rw [compileWith, found, Yard.arrange?, Yard.accept?]
      dsimp only
      cases yard.closing? with
      | none => rfl
      | some closed => exact ih closed

theorem reads_of_compiled {line : Nat} {tokens : List String} {yard : Yard}
    {machine next : Machine} {items : List Item}
    (compiled : compileWith answerAll line tokens yard machine = (.ok items, next)) :
    ∃ parts, Reads line tokens machine parts next ∧ yard.arrange? parts = some items := by
  fun_induction compileWith answerAll line tokens yard machine with
  | case1 yard machine final finished =>
      cases compiled
      exact ⟨[], .done _, finished⟩
  | case2 | case3 | case10 | case11 | case12 => cases compiled
  | case4 yard machine token rest value found ih =>
      obtain ⟨parts, later, arranged⟩ := ih compiled
      have isOperand : IsOperand machine.scope [token] := by
        simp only [IsOperand, found]
      have read : readOperand line [token] machine = some (.value value, machine) := by
        unfold readOperand
        simp only [found]
      exact ⟨_, .operand isOperand read later, arranged⟩
  | case5 yard machine token rest json found value loaded loading ih =>
      obtain ⟨parts, later, arranged⟩ := ih compiled
      have isOperand : IsOperand machine.scope [token] := by
        simp only [IsOperand, found]
      have read : readOperand line [token] machine = some (.value value, loaded) := by
        unfold readOperand
        simp only [found, loading]
      exact ⟨_, .operand isOperand read later, arranged⟩
  | case6 yard machine token rest name found ih =>
      obtain ⟨parts, later, arranged⟩ := ih compiled
      have isOperand : IsOperand machine.scope [token] := by
        simp only [IsOperand, found]
      have read : readOperand line [token] machine = some (.reference name, machine) := by
        unfold readOperand
        simp only [found]
      exact ⟨_, .operand isOperand read later, arranged⟩
  | case7 yard machine token rest operator found ih =>
      obtain ⟨parts, later, arranged⟩ := ih compiled
      exact ⟨_, .operator found later, arranged⟩
  | case8 yard machine token rest found ih =>
      obtain ⟨parts, later, arranged⟩ := ih compiled
      exact ⟨_, .opening found later, arranged⟩
  | case9 yard machine token rest found closed closes ih =>
      obtain ⟨parts, later, arranged⟩ := ih compiled
      refine ⟨_, .closing found later, ?_⟩
      rw [Yard.arrange?, Yard.accept?, closes]
      exact arranged
  | case13 yard machine token rest capability found enough value asked answered ih =>
      obtain ⟨parts, later, arranged⟩ := ih compiled
      have isOperand : IsOperand machine.scope (token :: rest.take capability.arity) := by
        simp only [IsOperand, found, List.length_take]
        omega
      have read : readOperand line (token :: rest.take capability.arity) machine =
          some (.value value, asked) := by
        unfold readOperand
        simp only [found, answered]
      have reads := Reads.operand isOperand read later
      rw [List.cons_append, List.take_append_drop] at reads
      exact ⟨_, reads, arranged⟩

/-- Compiling keeps the parts of an expression: whatever compiles reads as parts, and its items are
theirs. Whatever reads as parts, every capability answering, compiles exactly when its parentheses
pair up, and is otherwise refused for them. -/
theorem compile_keeps_parts (tokens : List String) (line : Nat) (machine : Machine) :
    (∀ items next, machine.compile tokens line = (.ok items, next) →
      ∃ parts, Reads line tokens machine parts next ∧ Kept parts items) ∧
    ∀ parts final, Reads line tokens machine parts final →
      ((∃ fault, (machine.compile tokens line).1 = .error fault) ↔ ¬Balanced 0 parts) ∧
      ∀ fault, (machine.compile tokens line).1 = .error fault →
        fault = .malformed line .mismatchedParentheses := by
  constructor
  · intro items next compiled
    obtain ⟨parts, reads, arranged⟩ := reads_of_compiled compiled
    exact ⟨parts, reads, Yard.arrange_kept arranged⟩
  · intro parts final reads
    have balanced : (Yard.empty.arrange? parts).isSome = true ↔ Balanced 0 parts :=
      Yard.arrange_is_some_iff
    have compiled := compile_with_reads reads .empty
    rw [← balanced]
    cases arranged : Yard.empty.arrange? parts with
    | none =>
        rw [arranged] at compiled
        have refused : (machine.compile tokens line).1 =
          .error (.malformed line .mismatchedParentheses) := compiled
        rw [refused]
        simp
    | some items =>
        rw [arranged] at compiled
        have accepted : machine.compile tokens line = (.ok items, final) := compiled
        rw [accepted]
        simp

/-- A product with a sum in parentheses compiles; with one more closing parenthesis behind it, it is
refused. -/
theorem compile_keeps_parts_grouped :
    ∃ machine parts final,
      Reads 1 ["fnl:width", "*", "(", "true", "+", "ref:a", ")"] machine parts final ∧
      (¬∃ fault, (machine.compile ["fnl:width", "*", "(", "true", "+", "ref:a", ")"] 1).1 =
        .error fault) ∧
      (machine.compile ["fnl:width", "*", "(", "true", "+", "ref:a", ")", ")"] 1).1 =
        .error (.malformed 1 .mismatchedParentheses) := by
  let machine := start 1 (Host.standalone .zero .zero .empty 0)
  let product : List Constituent := [.operand (.value (.number .zero)), .operator .times, .opening,
    .operand (.value (.bool true)), .operator .plus, .operand (.reference "a"), .closing]
  have reads {rest : List String} {parts : List Constituent}
      (later : Reads 1 rest machine parts machine) :
      Reads 1 ("fnl:width" :: "*" :: "(" :: "true" :: "+" :: "ref:a" :: ")" :: rest) machine
        (product ++ parts) machine := by
    apply Reads.operand (show IsOperand machine.scope ["fnl:width"] from rfl) rfl
    apply Reads.operator (of_token_symbol _ .times)
    apply Reads.opening (of_token_opening _)
    apply Reads.operand (show IsOperand machine.scope ["true"] from rfl) rfl
    apply Reads.operator (of_token_symbol _ .plus)
    apply Reads.operand (show IsOperand machine.scope ["ref:a"] from rfl) rfl
    exact Reads.closing (of_token_closing _) later
  have grouped := reads (.done machine)
  have surplus := reads (.closing (of_token_closing machine.scope) (.done machine))
  refine ⟨machine, product ++ [], machine, grouped, ?_, ?_⟩
  · rw [((compile_keeps_parts _ 1 machine).2 _ _ grouped).1, not_not]
    iterate 7 refine balanced_cons.mpr ⟨_, rfl, ?_⟩
    exact balanced_nil.mpr rfl
  · obtain ⟨refused, cause⟩ := (compile_keeps_parts _ 1 machine).2 _ _ surplus
    have unbalanced : ¬Balanced 0 (product ++ [.closing]) := by
      intro balanced
      have total : 2 = 0 + 1 := balanced.closed
      cases total
    obtain ⟨fault, failed⟩ := refused.mpr unbalanced
    rw [failed, cause fault failed]

end Machine

end ScriptSandbox
