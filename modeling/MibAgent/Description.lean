import MibAgent.Query

/-!
# Descriptions

Printed forms that name the parts of a thing, meant for whoever looks for the cause of a
problem. A description lists the fields with their names in braces.
-/

namespace MibAgent

namespace Description

/-- A thing with named fields. -/
def ofFields (name : String) (fields : List (String × String)) : String :=
  name ++ " \x7b " ++ ", ".intercalate (fields.map fun (field, value) => field ++ ": " ++ value)
    ++ " \x7d"

/-- A thing with named fields, some of which are not shown. -/
def ofSomeFields (name : String) (fields : List (String × String)) : String :=
  name ++ " \x7b " ++ ", ".intercalate (fields.map fun (field, value) => field ++ ": " ++ value)
    ++ ", .. \x7d"

/-- A thing that may be missing. -/
def ofOption : Option String → String
  | none => "None"
  | some text => "Some(" ++ text ++ ")"

/-- A truth value. -/
def ofBool (b : Bool) : String := if b then "true" else "false"

/-- A sequence of things. -/
def ofList (items : List String) : String := "[" ++ ", ".intercalate items ++ "]"

/-- The decimals of a number of thousandths, without zeros at the end. -/
def thousandths (n : Nat) : String :=
  if n = 0 then ""
  else if n % 100 = 0 then "." ++ (n / 100).repr
  else if n % 10 = 0 then "." ++ (n / 100).repr ++ (n / 10 % 10).repr
  else "." ++ (n / 100).repr ++ (n / 10 % 10).repr ++ (n % 10).repr

/-- A span of time, given in milliseconds: in seconds from one second on. -/
def ofMilliseconds (n : Nat) : String :=
  if n = 0 then "0ns"
  else if n < 1000 then n.repr ++ "ms"
  else (n / 1000).repr ++ thousandths (n % 1000) ++ "s"

end Description

/-- The description of an OID. -/
def Oid.describe (x : Oid) : String := "Oid(" ++ x.toText ++ ")"

/-- The description of a scope. -/
def Scope.describe (s : Scope) : String :=
  Description.ofFields "Scope"
    [("lower", s.lower.oid.describe),
      ("lower_included", Description.ofBool s.lower.included),
      ("upper", Description.ofOption (s.upper.map (·.oid.describe))),
      ("upper_included", Description.ofBool (s.upper.any (·.included)))]

/-- The description of a context scope. -/
def ContextScope.describe (s : ContextScope) : String :=
  Description.ofFields "ContextScope"
    [("context", Description.ofOption (s.context.map Octets.toLiteral)),
      ("scope", s.scope.describe)]

/-- The description of a search. -/
def Search.describe {m : Type → Type} {α : Type} (s : Search m α) : String :=
  Description.ofFields "Query"
    [("scope", s.query.window.describe),
      ("write_access", Description.ofBool s.query.forWrite),
      ("source", Description.ofOption (s.query.source.map Nat.repr)),
      ("filtered", Description.ofBool s.filter.isSome)]

end MibAgent
