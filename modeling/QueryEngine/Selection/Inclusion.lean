import QueryEngine.Language.Document

/-!
# Inclusion

Which selections are part of a response. A selection is left out if its `skip` condition holds or
its `include` condition does not. A condition that is no boolean, or a variable without a boolean
value, counts as if it were not there.
-/

namespace QueryEngine

/-- The condition of a directive. -/
inductive Condition where
  | constant (value : Bool)
  | variable (name : String)
deriving DecidableEq, Repr

namespace Condition

/-- The condition that a directive states in its argument `if`. -/
def ofDirective? (directive : Directive) : Option Condition :=
  match directive.arguments.lookup "if" with
  | some (.bool value) => some (.constant value)
  | some (.variable name) => some (.variable name)
  | _ => none

/-- Whether the condition holds, if that is known. -/
def eval? (vars : Fields) : Condition → Option Bool
  | .constant value => some value
  | .variable name => (vars.lookup name).bind Json.asBool?

/-- Whether the condition of the first directive of that name holds; `absent` if there is none or
it is not known. -/
def holds (directives : List Directive) (name : String) (absent : Bool) (vars : Fields) :
    Bool :=
  (((directives.find? (·.name == name)).bind ofDirective?).bind (eval? vars)).getD absent

end Condition

/-- Whether the directives of a selection leave it in the response. -/
def Directive.include (directives : List Directive) (vars : Fields) : Bool :=
  ! Condition.holds directives "skip" false vars
    && Condition.holds directives "include" true vars

/-- A selection through which a field was reached. -/
inductive Guard where
  | field (field : Field)
  | inlineFragment (fragment : InlineFragment)
  | fragmentSpread (spread : FragmentSpread)
deriving Inhabited

/-- The directives on a guard. -/
def Guard.directives : Guard → List Directive
  | .field f => f.directives
  | .inlineFragment fragment => fragment.directives
  | .fragmentSpread spread => spread.directives

/-- A field selection with the selections it was reached through, outermost first. -/
structure Occurrence where
  field : Field
  guards : List Guard
deriving Inhabited

/-- Whether the field and everything it was reached through are left in the response. -/
def Occurrence.isIncluded (occurrence : Occurrence) (vars : Fields) : Bool :=
  Directive.include occurrence.field.directives vars
    && occurrence.guards.all fun guard => Directive.include guard.directives vars

end QueryEngine
