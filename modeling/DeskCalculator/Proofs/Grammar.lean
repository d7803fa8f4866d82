import Mathlib
import DeskCalculator.Expr
import DeskCalculator.Token

namespace DeskCalculator

/-!
# The grammar of expressions

The rules by which lexemes form an expression, as a relation and without any
reader in view:

* `expression := term (('+' | '-') term)*`
* `term := power (('*' | '/' | '%') power)*`
* `power := unary ('**' power)?`
* `unary := ('+' | '-') unary | primary`
* `primary := number | name '(' [expression (',' expression)*] ')' | '(' expression ')'`

A repetition is read as a recursion on its left, because that is how its
operators group.  A derivation comes with the tree that it builds and with the
largest number of descents that are nested in one another: a group, an argument
list, a sign over its operand and a power over its right side are one each.
Nothing is said here about how deep an expression may be.
-/

/-- The categories of the grammar.  Each contains the ones before it. -/
inductive Category where
  | primary
  | unary
  | power
  | term
  | expression
deriving Repr, DecidableEq

/-- How loosely the lexemes of a category hold together. -/
def Category.rank : Category -> Nat
  | primary => 0
  | unary => 1
  | power => 2
  | term => 3
  | expression => 4

namespace Operator

/-- The category whose rule the operator belongs to. -/
def category : Operator -> Category
  | add | subtract => .expression
  | multiply | divide | modulo => .term
  | power => .power

/-- What stands to the left of the operator in its rule. -/
def leftCategory : Operator -> Category
  | add | subtract => .expression
  | multiply | divide | modulo => .term
  | power => .unary

/-- What stands to the right of the operator in its rule. -/
def rightCategory : Operator -> Category
  | add | subtract => .term
  | multiply | divide | modulo => .power
  | power => .power

/-- Number of descents that the operator makes over its right side. -/
def descents : Operator -> Nat
  | power => 1
  | _ => 0

end Operator

mutual

/-- The lexemes form a tree by the rule of a category, with this many descents
nested in one another.  A category that adds nothing stands for the next
tighter one. -/
inductive Derives : Category -> List Lexeme -> Expr -> Nat -> Prop
  | number (value : Float) (position : Nat) :
      Derives .primary [⟨.number value, position⟩] (.literal value) 0
  | emptyCall (name : String) (position opened closed : Nat) :
      Derives .primary
        [⟨.identifier name, position⟩, ⟨.openParen, opened⟩, ⟨.closeParen, closed⟩]
        (.call name []) 1
  | call (name : String) (position opened closed : Nat) {inside : List Lexeme}
      {arguments : List Expr} {descents : Nat} :
      DerivesArguments inside arguments descents ->
      Derives .primary
        (⟨.identifier name, position⟩ :: ⟨.openParen, opened⟩ ::
          (inside ++ [⟨.closeParen, closed⟩]))
        (.call name arguments) (descents + 1)
  | group (opened closed : Nat) {inside : List Lexeme} {tree : Expr} {descents : Nat} :
      Derives .expression inside tree descents ->
      Derives .primary (⟨.openParen, opened⟩ :: (inside ++ [⟨.closeParen, closed⟩])) tree
        (descents + 1)
  | signed {operator : Operator} {sign : Sign} (position : Nat) {lexemes : List Lexeme}
      {operand : Expr} {descents : Nat} :
      Sign.ofOperator? operator = some sign -> Derives .unary lexemes operand descents ->
      Derives .unary (⟨.operator operator, position⟩ :: lexemes) (.signed sign operand)
        (descents + 1)
  | binary (operator : Operator) (position : Nat) {before after : List Lexeme}
      {left right : Expr} {leftDescents rightDescents : Nat} :
      Derives operator.leftCategory before left leftDescents ->
      Derives operator.rightCategory after right rightDescents ->
      Derives operator.category (before ++ ⟨.operator operator, position⟩ :: after)
        (.binary operator left right) (max leftDescents (rightDescents + operator.descents))
  | tighter {narrow wide : Category} {lexemes : List Lexeme} {tree : Expr} {descents : Nat} :
      narrow.rank + 1 = wide.rank -> Derives narrow lexemes tree descents ->
      Derives wide lexemes tree descents

/-- The lexemes form one or more trees with commas between them. -/
inductive DerivesArguments : List Lexeme -> List Expr -> Nat -> Prop
  | first {lexemes : List Lexeme} {argument : Expr} {descents : Nat} :
      Derives .expression lexemes argument descents ->
      DerivesArguments lexemes [argument] descents
  | next (position : Nat) {before after : List Lexeme} {arguments : List Expr}
      {argument : Expr} {descents more : Nat} :
      DerivesArguments before arguments descents -> Derives .expression after argument more ->
      DerivesArguments (before ++ ⟨.comma, position⟩ :: after) (arguments ++ [argument])
        (max descents more)

end

theorem Category.eq_of_rank_eq {first second : Category} (same : first.rank = second.rank) :
    first = second := by
  cases first <;> cases second <;> simp [Category.rank] at same <;> rfl

/-- What a category derives is derived by every looser one. -/
theorem Derives.loosen {narrow wide : Category} {lexemes : List Lexeme} {tree : Expr}
    {descents : Nat} (derived : Derives narrow lexemes tree descents)
    (looser : narrow.rank ≤ wide.rank) : Derives wide lexemes tree descents := by
  have reach : forall (steps : Nat) (target : Category), narrow.rank + steps = target.rank ->
      Derives target lexemes tree descents := by
    intro steps
    induction steps with
    | zero => intro target same; exact Category.eq_of_rank_eq same ▸ derived
    | succ steps ih =>
        intro target far
        have between : Exists fun middle : Category => middle.rank + 1 = target.rank := by
          cases target with
          | primary => simp [Category.rank] at far
          | unary => exact ⟨.primary, rfl⟩
          | power => exact ⟨.unary, rfl⟩
          | term => exact ⟨.power, rfl⟩
          | expression => exact ⟨.term, rfl⟩
        rcases between with ⟨middle, next⟩
        exact .tighter next (ih middle (by omega))
  exact reach (wide.rank - narrow.rank) wide (by omega)

/-- A derivation starts with a lexeme that neither closes anything nor ends the
input. -/
def StartsOperand (lexemes : List Lexeme) : Prop :=
  Exists fun first : Lexeme => Exists fun rest : List Lexeme =>
    lexemes = first :: rest ∧ first.token ≠ .closeParen ∧ first.token ≠ .endOfInput

theorem StartsOperand.append {lexemes : List Lexeme} (starts : StartsOperand lexemes)
    (more : List Lexeme) : StartsOperand (lexemes ++ more) := by
  rcases starts with ⟨first, rest, rfl, notClosing, notEnd⟩
  exact ⟨first, rest ++ more, rfl, notClosing, notEnd⟩

mutual

theorem Derives.startsOperand {category : Category} {lexemes : List Lexeme} {tree : Expr}
    {descents : Nat} : Derives category lexemes tree descents -> StartsOperand lexemes
  | .number _ _ => ⟨_, _, rfl, nofun, nofun⟩
  | .emptyCall _ _ _ _ => ⟨_, _, rfl, nofun, nofun⟩
  | .call _ _ _ _ _ => ⟨_, _, rfl, nofun, nofun⟩
  | .group _ _ _ => ⟨_, _, rfl, nofun, nofun⟩
  | .signed _ _ _ => ⟨_, _, rfl, nofun, nofun⟩
  | .binary _ _ left _ => left.startsOperand.append _
  | .tighter _ narrow => narrow.startsOperand

theorem DerivesArguments.startsOperand {lexemes : List Lexeme} {arguments : List Expr}
    {descents : Nat} : DerivesArguments lexemes arguments descents -> StartsOperand lexemes
  | .first argument => argument.startsOperand
  | .next _ before _ => before.startsOperand.append _

end

/-- Arguments may be put in front as well as behind. -/
theorem DerivesArguments.prepend (position : Nat) {before after : List Lexeme} {argument : Expr}
    {arguments : List Expr} {descents more : Nat}
    (derived : Derives .expression before argument descents) :
    DerivesArguments after arguments more ->
      DerivesArguments (before ++ ⟨.comma, position⟩ :: after) (argument :: arguments)
        (max descents more)
  | .first only => .next position (.first derived) only
  | .next other earlier last => by
      have longer := DerivesArguments.next other (earlier.prepend position derived) last
      rw [List.append_assoc, List.cons_append, Nat.max_assoc] at longer
      exact longer

end DeskCalculator
