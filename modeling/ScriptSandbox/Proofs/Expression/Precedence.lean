import ScriptSandbox.Host.Standalone
import ScriptSandbox.Proofs.Expression.Frame
import ScriptSandbox.Proofs.Expression.Tree

/-!
Infix expressions and operator trees. Any printing of a tree in which parentheses stand wherever the
binding strengths ask for them compiles to the post-order listing of the tree.
-/

namespace ScriptSandbox

namespace OperatorTree

/-- The tokens of a tree in infix form, for a place where an operator that binds looser than `level`
stands in parentheses. A left child may bind as tightly as its parent, a child on the right has to
bind tighter; parentheses may stand around any subtree. -/
inductive Printed : Nat → OperatorTree (List String) → List String → Prop
  | operand (level : Nat) (tokens : List String) : Printed level (.leaf tokens) tokens
  | grouped {tree : OperatorTree (List String)} {tokens : List String} (level : Nat)
      (inner : Printed 0 tree tokens) : Printed level tree ("(" :: (tokens ++ [")"]))
  | unary {level : Nat} {operator : Operator} {one : operator.arity = 1}
      {only : OperatorTree (List String)} {tokens : List String}
      (binds : level ≤ operator.precedence) (before : Printed operator.precedence only tokens) :
      Printed level (.unary operator one only) (tokens ++ [operator.symbol])
  | binary {level : Nat} {operator : Operator} {two : operator.arity = 2}
      {left right : OperatorTree (List String)} {leftTokens rightTokens : List String}
      (binds : level ≤ operator.precedence)
      (before : Printed operator.precedence left leftTokens)
      (after : Printed (operator.precedence + 1) right rightTokens) :
      Printed level (.binary operator two left right)
        (leftTokens ++ operator.symbol :: rightTokens)
  | ternary {level : Nat} {operator : Operator} {three : operator.arity = 3}
      {first second third : OperatorTree (List String)}
      {firstTokens secondTokens thirdTokens : List String}
      (binds : level ≤ operator.precedence)
      (before : Printed operator.precedence first firstTokens)
      (after : Printed (operator.precedence + 1) second secondTokens)
      (last : Printed (operator.precedence + 1) third thirdTokens) :
      Printed level (.ternary operator three first second third)
        (firstTokens ++ operator.symbol :: (secondTokens ++ thirdTokens))

def enclose (level precedence : Nat) (tokens : List String) : List String :=
  if level ≤ precedence then tokens else "(" :: (tokens ++ [")"])

/-- The printing of a tree with no more parentheses than it needs. -/
def print (level : Nat) : OperatorTree (List String) → List String
  | .leaf tokens => tokens
  | .unary operator _ only =>
      enclose level operator.precedence (only.print operator.precedence ++ [operator.symbol])
  | .binary operator _ left right =>
      enclose level operator.precedence
        (left.print operator.precedence ++ operator.symbol :: right.print (operator.precedence + 1))
  | .ternary operator _ first second third =>
      enclose level operator.precedence
        (first.print operator.precedence ++ operator.symbol ::
          (second.print (operator.precedence + 1) ++ third.print (operator.precedence + 1)))

theorem printed_enclose {tree : OperatorTree (List String)} {tokens : List String}
    {precedence : Nat} (printed : ∀ level ≤ precedence, Printed level tree tokens) (level : Nat) :
    Printed level tree (enclose level precedence tokens) := by
  unfold enclose
  split
  · next binds => exact printed level binds
  · exact .grouped level (printed 0 (Nat.zero_le _))

theorem printed_print (tree : OperatorTree (List String)) (level : Nat) :
    Printed level tree (tree.print level) := by
  induction tree generalizing level with
  | leaf tokens => exact .operand level tokens
  | unary operator one only ih =>
      exact printed_enclose (fun _ binds => .unary binds (ih _)) level
  | binary operator two left right ihLeft ihRight =>
      exact printed_enclose (fun _ binds => .binary binds (ihLeft _) (ihRight _)) level
  | ternary operator three first second third ihFirst ihSecond ihThird =>
      exact printed_enclose (fun _ binds => .ternary binds (ihFirst _) (ihSecond _) (ihThird _)) level

end OperatorTree

namespace Machine

/-- Whether tokens form one operand: a token that stands for a literal or a reference, or a
capability with its arguments. -/
def IsOperand (scope : Scope) : List String → Prop
  | [] => False
  | token :: arguments =>
      match Lexeme.ofToken scope token with
      | .ok (.scalar _) | .ok (.json _) | .ok (.reference _) => arguments = []
      | .ok (.call capability) => arguments.length = capability.arity
      | _ => False

/-- What the tokens of an operand come to; `none` when a capability refuses. -/
def readOperand (line : Nat) (tokens : List String) (machine : Machine) :
    Option (Operand × Machine) :=
  match tokens with
  | [] => none
  | token :: arguments =>
      match Lexeme.ofToken machine.scope token, arguments with
      | .ok (.scalar value), [] => some (.value value, machine)
      | .ok (.json json), [] => some (.value (machine.load json).1, (machine.load json).2)
      | .ok (.reference name), [] => some (.reference name, machine)
      | .ok (.call capability), arguments =>
          match answerAll capability arguments line machine with
          | (.ok value, asked) => some (.value value, asked)
          | (.error _, _) => none
      | _, _ => none

/-- The tree with every operand read, from left to right. -/
def readTree (line : Nat) : OperatorTree (List String) → Machine →
    Option (OperatorTree Operand × Machine)
  | .leaf tokens, machine =>
      (readOperand line tokens machine).map fun read => (.leaf read.1, read.2)
  | .unary operator one only, machine =>
      (readTree line only machine).map fun read => (.unary operator one read.1, read.2)
  | .binary operator two left right, machine =>
      (readTree line left machine).bind fun before =>
        (readTree line right before.2).map fun after =>
          (.binary operator two before.1 after.1, after.2)
  | .ternary operator three first second third, machine =>
      (readTree line first machine).bind fun before =>
        (readTree line second before.2).bind fun after =>
          (readTree line third after.2).map fun last =>
            (.ternary operator three before.1 after.1 last.1, last.2)

/-- Whether every capability among the operands of a tree answers when its turn comes. -/
def Answered (line : Nat) : OperatorTree (List String) → Machine → Prop
  | .leaf tokens, machine =>
      ∀ token arguments capability, tokens = token :: arguments →
        Lexeme.ofToken machine.scope token = .ok (.call capability) →
        ∃ value, (answerAll capability arguments line machine).1 = .ok value
  | .unary _ _ only, machine => Answered line only machine
  | .binary _ _ left right, machine =>
      Answered line left machine ∧
        ∀ read ∈ readTree line left machine, Answered line right read.2
  | .ternary _ _ first second third, machine =>
      Answered line first machine ∧
        ∀ read ∈ readTree line first machine, Answered line second read.2 ∧
          ∀ later ∈ readTree line second read.2, Answered line third later.2

end Machine

namespace Yard

/-- Whether the operator that waited last binds looser than a level. -/
def WaitsBelow (level : Nat) : List Waiting → Prop
  | .operator top :: _ => top.precedence < level
  | _ => True

theorem WaitsBelow.mono {level higher : Nat} (increases : level ≤ higher) :
    ∀ {waiting : List Waiting}, WaitsBelow level waiting → WaitsBelow higher waiting
  | [], _ => trivial
  | .parenthesis :: _, _ => trivial
  | .operator _ :: _, below => Nat.lt_of_lt_of_le below increases

theorem release_below {arriving : Operator} {output : List Item} :
    ∀ {waiting : List Waiting}, WaitsBelow arriving.precedence waiting →
      release arriving output waiting = ⟨output, waiting⟩
  | [], _ => rfl
  | .parenthesis :: _, _ => rfl
  | .operator top :: rest, below => by
      simp only [release]
      exact if_pos below

theorem release_pending {arriving : Operator} {pending : List Operator} {waiting : List Waiting}
    (tight : ∀ operator ∈ pending, arriving.precedence ≤ operator.precedence)
    (below : WaitsBelow arriving.precedence waiting) (output : List Item) :
    release arriving output (pending.map .operator ++ waiting) =
      ⟨(pending.map Item.operator).reverse ++ output, waiting⟩ := by
  induction pending generalizing output with
  | nil => exact release_below below
  | cons top rest ih =>
      have stays := Nat.not_lt.mpr (tight top List.mem_cons_self)
      simp only [List.map_cons, List.cons_append, release, if_neg stays, List.reverse_cons,
        List.append_assoc]
      exact ih (fun operator member => tight operator (List.mem_cons_of_mem _ member)) _

theorem close_from_pending (pending : List Operator) (waiting : List Waiting) (output : List Item) :
    closeFrom output (pending.map .operator ++ .parenthesis :: waiting) =
      some ⟨(pending.map Item.operator).reverse ++ output, waiting⟩ := by
  induction pending generalizing output with
  | nil => rfl
  | cons top rest ih =>
      simp only [List.map_cons, List.cons_append, closeFrom, ih, List.reverse_cons,
        List.append_assoc, List.nil_append]

theorem drain_pending (pending : List Operator) (output : List Item) :
    drain output (pending.map .operator) =
      some ((pending.map Item.operator).reverse ++ output).reverse := by
  induction pending generalizing output with
  | nil => rfl
  | cons top rest ih =>
      simp only [List.map_cons, drain, ih, List.reverse_cons, List.append_assoc,
        List.singleton_append]

end Yard

theorem is_nan_symbol (operator : Operator) : (Number.ofText operator.symbol).isNaN = true := by
  cases operator <;> decide +kernel

theorem of_token_symbol (scope : Scope) (operator : Operator) :
    Lexeme.ofToken scope operator.symbol = .ok (.operator operator) := by
  have nan := is_nan_symbol operator
  simp only [Lexeme.ofToken, nan]
  cases operator <;> rfl

theorem of_token_opening (scope : Scope) : Lexeme.ofToken scope "(" = .ok .opening := by
  have nan : (Number.ofText "(").isNaN = true := by decide +kernel
  simp only [Lexeme.ofToken, nan]
  rfl

theorem of_token_closing (scope : Scope) : Lexeme.ofToken scope ")" = .ok .closing := by
  have nan : (Number.ofText ")").isNaN = true := by decide +kernel
  simp only [Lexeme.ofToken, nan]
  rfl

namespace Machine

section

variable (answer : Answerer) (line : Nat) (rest : List String) (yard : Yard) (machine : Machine)

theorem compile_with_symbol (operator : Operator) :
    compileWith answer line (operator.symbol :: rest) yard machine =
      compileWith answer line rest (yard.operator operator) machine := by
  rw [compileWith, of_token_symbol]

theorem compile_with_opening :
    compileWith answer line ("(" :: rest) yard machine =
      compileWith answer line rest yard.opening machine := by
  rw [compileWith, of_token_opening]

theorem compile_with_closing {closed : Yard} (closing : yard.closing? = some closed) :
    compileWith answer line (")" :: rest) yard machine =
      compileWith answer line rest closed machine := by
  rw [compileWith, of_token_closing]
  simp only [closing]

end

theorem compile_with_operand {line : Nat} {tokens : List String} {machine next : Machine}
    {operand : Operand} (isOperand : IsOperand machine.scope tokens)
    (read : readOperand line tokens machine = some (operand, next)) (rest : List String)
    (yard : Yard) :
    compileWith answerAll line (tokens ++ rest) yard machine =
      compileWith answerAll line rest (yard.operand operand.toItem) next := by
  cases tokens with
  | nil => cases isOperand
  | cons token arguments =>
      rw [List.cons_append, compileWith]
      unfold readOperand at read
      unfold IsOperand at isOperand
      cases lexeme : Lexeme.ofToken machine.scope token with
      | error cause => simp only [lexeme] at isOperand
      | ok found =>
          cases found with
          | scalar | json | reference =>
              simp only [lexeme] at isOperand
              subst isOperand
              simp only [lexeme, Option.some.injEq, Prod.mk.injEq] at read
              obtain ⟨rfl, rfl⟩ := read
              rfl
          | call capability =>
              simp only [lexeme] at isOperand read
              have enough : ¬(arguments ++ rest).length < capability.arity := by
                rw [List.length_append]
                omega
              have taken : (arguments ++ rest).take capability.arity = arguments := by
                rw [← isOperand, List.take_left]
              have dropped : (arguments ++ rest).drop capability.arity = rest := by
                rw [← isOperand, List.drop_left]
              split at read
              · next value asked answered =>
                  cases read
                  simp only [if_neg enough, taken, answered, dropped, Operand.toItem]
              · cases read
          | _ => simp only [lexeme] at isOperand

theorem read_operand_scope {line : Nat} {tokens : List String} {machine next : Machine}
    {operand : Operand} (read : readOperand line tokens machine = some (operand, next)) :
    next.scope = machine.scope := by
  unfold readOperand at read
  split at read
  · cases read
  · split at read
    · cases read
      rfl
    · cases read
      rfl
    · cases read
      rfl
    · split at read
      · next value asked answered =>
          cases read
          exact (asks_of_answered answered).scope
      · cases read
    · cases read

theorem read_tree_scope {line : Nat} {tree : OperatorTree (List String)} {machine next : Machine}
    {operands : OperatorTree Operand} (read : readTree line tree machine = some (operands, next)) :
    next.scope = machine.scope := by
  induction tree generalizing machine next operands with
  | leaf tokens =>
      obtain ⟨⟨operand, final⟩, found, same⟩ := Option.map_eq_some_iff.mp read
      cases same
      exact read_operand_scope found
  | unary operator one only ih =>
      obtain ⟨⟨inner, final⟩, found, same⟩ := Option.map_eq_some_iff.mp read
      cases same
      exact ih found
  | binary operator two left right ihLeft ihRight =>
      obtain ⟨⟨before, between⟩, foundLeft, readRight⟩ := Option.bind_eq_some_iff.mp read
      obtain ⟨⟨after, final⟩, foundRight, same⟩ := Option.map_eq_some_iff.mp readRight
      cases same
      rw [ihRight foundRight, ihLeft foundLeft]
  | ternary operator three first second third ihFirst ihSecond ihThird =>
      obtain ⟨⟨before, between⟩, foundFirst, readRest⟩ := Option.bind_eq_some_iff.mp read
      obtain ⟨⟨after, later⟩, foundSecond, readThird⟩ := Option.bind_eq_some_iff.mp readRest
      obtain ⟨⟨last, final⟩, foundThird, same⟩ := Option.map_eq_some_iff.mp readThird
      cases same
      rw [ihThird foundThird, ihSecond foundSecond, ihFirst foundFirst]

theorem read_operand_of_answered {line : Nat} {tokens : List String} {machine : Machine}
    (isOperand : IsOperand machine.scope tokens)
    (answered : Answered line (.leaf tokens) machine) :
    ∃ operand next, readOperand line tokens machine = some (operand, next) := by
  cases tokens with
  | nil => cases isOperand
  | cons token arguments =>
      unfold IsOperand at isOperand
      unfold readOperand
      cases lexeme : Lexeme.ofToken machine.scope token with
      | error cause => simp only [lexeme] at isOperand
      | ok found =>
          cases found with
          | call capability =>
              obtain ⟨value, succeeded⟩ := answered token arguments capability rfl lexeme
              cases given : answerAll capability arguments line machine with
              | mk result asked =>
                  rw [given] at succeeded
                  cases succeeded
                  exact ⟨.value value, asked, by simp only [lexeme, given]⟩
          | scalar | json | reference =>
              simp only [lexeme] at isOperand
              subst isOperand
              simp only [lexeme]
              exact ⟨_, _, rfl⟩
          | _ => simp only [lexeme] at isOperand

theorem read_tree_of_answered {line : Nat} {tree : OperatorTree (List String)} {machine : Machine}
    (leaves : tree.All (IsOperand machine.scope)) (answered : Answered line tree machine) :
    ∃ operands next, readTree line tree machine = some (operands, next) := by
  induction tree generalizing machine with
  | leaf tokens =>
      obtain ⟨operand, next, found⟩ := read_operand_of_answered leaves answered
      exact ⟨.leaf operand, next, by simp only [readTree, found, Option.map_some]⟩
  | unary operator one only ih =>
      obtain ⟨inner, next, found⟩ := ih leaves answered
      exact ⟨.unary operator one inner, next, by simp only [readTree, found, Option.map_some]⟩
  | binary operator two left right ihLeft ihRight =>
      obtain ⟨first, between, foundLeft⟩ := ihLeft leaves.1 answered.1
      have rightLeaves := leaves.2
      rw [← read_tree_scope foundLeft] at rightLeaves
      obtain ⟨second, next, foundRight⟩ := ihRight rightLeaves (answered.2 _ foundLeft)
      exact ⟨.binary operator two first second, next, by
        simp only [readTree, foundLeft, foundRight, Option.bind_some, Option.map_some]⟩
  | ternary operator three first second third ihFirst ihSecond ihThird =>
      obtain ⟨array, between, foundFirst⟩ := ihFirst leaves.1 answered.1
      obtain ⟨answeredSecond, answeredThird⟩ := answered.2 _ foundFirst
      have secondLeaves := leaves.2.1
      have thirdLeaves := leaves.2.2
      rw [← read_tree_scope foundFirst] at secondLeaves thirdLeaves
      obtain ⟨start, later, foundSecond⟩ := ihSecond secondLeaves answeredSecond
      rw [← read_tree_scope foundSecond] at thirdLeaves
      obtain ⟨finish, next, foundThird⟩ := ihThird thirdLeaves (answeredThird _ foundSecond)
      exact ⟨.ternary operator three array start finish, next, by
        simp only [readTree, foundFirst, foundSecond, foundThird, Option.bind_some,
          Option.map_some]⟩

/-- What waits after a printed tree: operators of the tree that bind at least as tightly as its
level. Sent on, they complete the listing of the tree. -/
structure Waits (level : Nat) (operands : OperatorTree Operand) (output settled : List Item)
    (pending : List Operator) : Prop where
  tight : ∀ operator ∈ pending, level ≤ operator.precedence
  listed : (pending.map Item.operator).reverse ++ settled = operands.postorder.reverse ++ output

/-- A symbol behind a printed tree that binds at least as tightly completes its listing and waits
itself. -/
theorem compile_with_symbol_behind {operator : Operator} {operands : OperatorTree Operand}
    {output settled : List Item} {pending : List Operator} {waiting : List Waiting}
    (waits : Waits operator.precedence operands output settled pending)
    (below : Yard.WaitsBelow operator.precedence waiting) (line : Nat) (rest : List String)
    (machine : Machine) :
    compileWith answerAll line (operator.symbol :: rest)
        ⟨settled, pending.map .operator ++ waiting⟩ machine =
      compileWith answerAll line rest
        ⟨operands.postorder.reverse ++ output, .operator operator :: waiting⟩ machine := by
  rw [compile_with_symbol, Yard.operator]
  simp only [Yard.release_pending waits.tight below, waits.listed]

theorem Waits.settled_of_tightest {level : Nat} {operands : OperatorTree Operand}
    {output settled : List Item} {pending : List Operator}
    (waits : Waits level operands output settled pending) (tightest : 3 < level) :
    pending = [] ∧ settled = operands.postorder.reverse ++ output := by
  cases pending with
  | nil => exact ⟨rfl, waits.listed⟩
  | cons operator others =>
      have binds := waits.tight operator List.mem_cons_self
      have bound : operator.precedence ≤ 3 := by cases operator <;> decide
      omega

/-- Compiling the printing of a tree leaves its listing behind, up to the operators that wait. The
operators that waited before stay as they are, because all of them bind looser. -/
theorem compile_with_printed {line level : Nat} {tree : OperatorTree (List String)}
    {tokens : List String} (printed : tree.Printed level tokens) {machine next : Machine}
    {operands : OperatorTree Operand} (leaves : tree.All (IsOperand machine.scope))
    (read : readTree line tree machine = some (operands, next)) (waiting : List Waiting)
    (below : Yard.WaitsBelow level waiting) (output : List Item) :
    ∃ settled pending, Waits level operands output settled pending ∧
      ∀ rest, compileWith answerAll line (tokens ++ rest) ⟨output, waiting⟩ machine =
        compileWith answerAll line rest ⟨settled, pending.map .operator ++ waiting⟩ next := by
  induction printed generalizing machine next operands waiting output with
  | operand level tokens =>
      obtain ⟨⟨operand, final⟩, found, same⟩ := Option.map_eq_some_iff.mp read
      cases same
      refine ⟨operand.toItem :: output, [], ⟨by simp, by simp [OperatorTree.postorder]⟩, ?_⟩
      intro rest
      rw [compile_with_operand leaves found]
      rfl
  | grouped level inner ih =>
      obtain ⟨settled, pending, left, compiled⟩ :=
        ih leaves read (.parenthesis :: waiting) trivial output
      refine ⟨operands.postorder.reverse ++ output, [], ⟨by simp, by simp⟩, ?_⟩
      intro rest
      rw [List.cons_append, List.append_assoc, compile_with_opening, Yard.opening, compiled,
        List.singleton_append]
      apply compile_with_closing
      rw [Yard.closing?, Yard.close_from_pending, left.listed]
      rfl
  | @unary level operator one only tokens binds before ih =>
      obtain ⟨⟨inner, final⟩, found, same⟩ := Option.map_eq_some_iff.mp read
      cases same
      have looser := below.mono binds
      obtain ⟨settled, pending, left, compiled⟩ := ih leaves found waiting looser output
      refine ⟨inner.postorder.reverse ++ output, [operator], ⟨by simpa using binds, ?_⟩, ?_⟩
      · simp [OperatorTree.postorder]
      · intro rest
        rw [List.append_assoc, compiled, List.singleton_append,
          compile_with_symbol_behind left looser]
        rfl
  | @binary level operator two left right leftTokens rightTokens binds before after ihLeft ihRight =>
      obtain ⟨⟨first, between⟩, foundLeft, readRight⟩ := Option.bind_eq_some_iff.mp read
      obtain ⟨⟨second, final⟩, foundRight, same⟩ := Option.map_eq_some_iff.mp readRight
      cases same
      have looser := below.mono binds
      have rightLeaves : right.All (IsOperand between.scope) := by
        rw [read_tree_scope foundLeft]
        exact leaves.2
      obtain ⟨leftSettled, leftPending, leftWaits, leftCompiled⟩ :=
        ihLeft leaves.1 foundLeft waiting looser output
      obtain ⟨settled, pending, rightWaits, rightCompiled⟩ :=
        ihRight rightLeaves foundRight (.operator operator :: waiting) (Nat.lt_succ_self _)
          (first.postorder.reverse ++ output)
      refine ⟨settled, pending ++ [operator], ⟨?_, ?_⟩, ?_⟩
      · intro other member
        rcases List.mem_append.mp member with tighter | same
        · have tightly := rightWaits.tight other tighter
          omega
        · rw [List.mem_singleton.mp same]
          exact binds
      · simp [OperatorTree.postorder, rightWaits.listed]
      · intro rest
        rw [List.append_assoc, leftCompiled, List.cons_append,
          compile_with_symbol_behind leftWaits looser, rightCompiled]
        simp
  | @ternary level operator three first second third firstTokens secondTokens thirdTokens binds
      before after last ihFirst ihSecond ihThird =>
      obtain ⟨⟨array, between⟩, foundFirst, readRest⟩ := Option.bind_eq_some_iff.mp read
      obtain ⟨⟨start, later⟩, foundSecond, readThird⟩ := Option.bind_eq_some_iff.mp readRest
      obtain ⟨⟨finish, final⟩, foundThird, same⟩ := Option.map_eq_some_iff.mp readThird
      cases same
      have looser := below.mono binds
      have tightest : 3 < operator.precedence + 1 := by
        cases operator <;> first | decide | cases three
      have scopeBetween := read_tree_scope foundFirst
      have scopeLater := (read_tree_scope foundSecond).trans scopeBetween
      obtain ⟨firstSettled, firstPending, firstWaits, firstCompiled⟩ :=
        ihFirst leaves.1 foundFirst waiting looser output
      obtain ⟨_, _, secondWaits, secondCompiled⟩ :=
        ihSecond (scopeBetween ▸ leaves.2.1) foundSecond (.operator operator :: waiting)
          (Nat.lt_succ_self _) (array.postorder.reverse ++ output)
      obtain ⟨rfl, rfl⟩ := secondWaits.settled_of_tightest tightest
      obtain ⟨_, _, thirdWaits, thirdCompiled⟩ :=
        ihThird (scopeLater ▸ leaves.2.2) foundThird (.operator operator :: waiting)
          (Nat.lt_succ_self _) (start.postorder.reverse ++ (array.postorder.reverse ++ output))
      obtain ⟨rfl, rfl⟩ := thirdWaits.settled_of_tightest tightest
      refine ⟨finish.postorder.reverse ++
        (start.postorder.reverse ++ (array.postorder.reverse ++ output)), [operator],
        ⟨by simpa using binds, ?_⟩, ?_⟩
      · simp [OperatorTree.postorder]
      · intro rest
        rw [List.append_assoc, firstCompiled, List.cons_append,
          compile_with_symbol_behind firstWaits looser, List.append_assoc, secondCompiled]
        exact thirdCompiled rest

/-- Whenever every capability answers, any printing of a tree of operands compiles, and the items are
the post-order listing of the tree with its operands read from left to right. -/
theorem compile_printed_eq_postorder {line : Nat} {tree : OperatorTree (List String)}
    {tokens : List String} {machine : Machine} (printed : tree.Printed 0 tokens)
    (leaves : tree.All (IsOperand machine.scope)) (answered : Answered line tree machine) :
    ∃ operands next, readTree line tree machine = some (operands, next) ∧
      machine.compile tokens line = (.ok operands.postorder, next) := by
  obtain ⟨operands, next, read⟩ := read_tree_of_answered leaves answered
  obtain ⟨settled, pending, left, compiled⟩ :=
    compile_with_printed printed leaves read [] trivial []
  refine ⟨operands, next, read, ?_⟩
  have finished := compiled []
  rw [List.append_nil] at finished
  rw [compile, Yard.empty, finished, List.append_nil, compileWith, Yard.finish?,
    Yard.drain_pending, left.listed, List.append_nil, List.reverse_reverse]

/-- A sum in parentheses times a copied part of an array, whose end is popped from the same array. -/
theorem compile_printed_eq_postorder_nested :
    ∃ operands next,
      readTree 1 (.binary .times rfl
          (.binary .plus rfl (.leaf ["true"]) (.leaf ["fnl:width"]))
          (.ternary .slice rfl (.leaf ["ref:a"]) (.leaf ["null"]) (.unary .pop rfl (.leaf ["ref:a"]))))
        (start 1 (Host.standalone .zero .zero .empty 0)) = some (operands, next) ∧
      (start 1 (Host.standalone .zero .zero .empty 0)).compile
        ["(", "true", "+", "fnl:width", ")", "*", "ref:a", "slice", "null", "(", "ref:a", "pop", ")"] 1 =
          (.ok operands.postorder, next) := by
  apply compile_printed_eq_postorder
  · exact OperatorTree.printed_print _ 0
  · exact ⟨⟨rfl, rfl⟩, rfl, rfl, rfl⟩
  · refine ⟨⟨?_, ?_⟩, ?_⟩
    · rintro _ _ _ ⟨⟩ ⟨⟩
    · rintro _ _ _ _ _ ⟨⟩ ⟨⟩
      exact ⟨_, rfl⟩
    · refine fun _ _ => ⟨?_, fun _ _ => ⟨?_, fun _ _ => ?_⟩⟩
      · rintro _ _ _ ⟨⟩ ⟨⟩
      · rintro _ _ _ ⟨⟩ ⟨⟩
      · rintro _ _ _ ⟨⟩ ⟨⟩

end Machine

end ScriptSandbox
