import MibAgent.Message
import MibAgent.Query
import MibAgent.Registry.Entry

/-!
# Variables of a request

The work on one variable of a request: the binding asked for, which becomes the binding
answered, the scope in which the answer is sought, and how far the work has come. In a bulk
read a variable may repeat an earlier one, its predecessor, and then asks for what comes after
the predecessor's answer.
-/

namespace MibAgent

/-- How far a write has come with a variable. -/
inductive WriteStage where
  | untouched
  /-- The object is locked for this variable. -/
  | locked
  /-- The object has found the new value valid. -/
  | validated
  /-- The object has taken on the new value. -/
  | applied
deriving DecidableEq, Inhabited

/-- One variable of a request. -/
structure Variable where
  /-- The position in the request, counted from zero. -/
  index : Nat
  binding : Binding
  scope : Scope
  predecessor : Option Nat := none
  /-- The query by which the object was found. -/
  query : Option Query := none
  /-- The registration of the object that handles the variable. -/
  target : Option Entry := none
  status : Status := .noError
  isComplete : Bool := false
  /-- What the object stored to be able to undo a write. -/
  undo : Option Value := none
  stage : WriteStage := .untouched
deriving DecidableEq, Inhabited

namespace Variable

/-- Whether the variable has failed. -/
def hasError (v : Variable) : Bool := v.status.isError

/-- The variable failed. -/
def fail (v : Variable) (status : Status) : Variable := { v with status, isComplete := true }

/-- The work is done and the binding stays. -/
def complete (v : Variable) : Variable := { v with isComplete := true }

/-- The work is done and the answer is a binding. -/
def answer (v : Variable) (binding : Binding) : Variable := { v with binding, isComplete := true }

/-- The work is done and the answer is a value under the same OID. -/
def answerValue (v : Variable) (value : Value) : Variable :=
  v.answer ⟨v.binding.oid, value⟩

/-- The variable at `index` that repeats `p`. When `p` was answered with an exception there is
nothing more to find, and the repetition has the same answer. -/
def repetition (index predecessor : Nat) (p : Variable) : Variable where
  index
  binding := if p.binding.isException then p.binding else .ask p.binding.oid
  scope := .after p.binding.oid
  predecessor := some predecessor
  isComplete := p.binding.isException

end Variable

end MibAgent
