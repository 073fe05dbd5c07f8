import MibAgent.Request.Variable

/-!
# Requests

A request is an operation being answered, with the state of all its variables. A bulk read has
some variables that are read once, and its repeaters, which are read again and again: each row
of the result continues the row before it. Rows come into being as a cursor reaches them. They
end when a row has found nothing but the end of the view, when one more row of the same size
would not fit into the response, or when there are as many as were asked for. The first row is
always there, and a later row with nothing but the end of the view is dropped.
-/

namespace MibAgent

/-- Something kept with a request for as long as it lasts. -/
inductive Attachment where
  | number (n : Int)
  | text (s : String)
deriving DecidableEq, Inhabited

/-- An operation being answered. -/
structure Request where
  context : RequestContext
  /-- How many variables of a bulk read are read once. -/
  nonRepeaters : Nat
  /-- How many rows a bulk read asks for. -/
  maxRepetitions : Nat
  /-- How many variables each row has; none unless the request is a bulk read. -/
  repeaters : Nat
  /-- How many octets the encoded response may have. -/
  maxSize : Nat
  /-- The bindings as they were received. -/
  requested : List Binding
  vars : Array Variable
  /-- Whether there will be no more rows. -/
  exhausted : Bool := false
  attachments : OrderedMap String Attachment := .empty
deriving Inhabited

namespace Request

/-- The operation that is carried out when `op` is asked for in a version of the protocol:
the first version knows no bulk read and reads what comes next instead. -/
def effectiveOperation (version : Version) (op : Operation) : Operation :=
  if op = .getBulk ∧ version.isLegacy then .getNext else op

/-- The variable that asks for a binding. -/
def askedFor (op : Operation) (index : Nat) (b : Binding) : Variable where
  index
  binding := if op.isWrite then b else .ask b.oid
  scope := if op.isNext then .after b.oid else .exact b.oid

/-- The request for an operation, with a transaction number. Parameters of a bulk read below
zero count as zero, and no more variables can be read once than there are. When no row is
asked for, the repeaters are left out. -/
def create (context : RequestContext) (transaction : Nat) (pdu : Pdu) (maxSize : Nat) :
    Request :=
  let operation := effectiveOperation context.version pdu.operation
  let count := pdu.bindings.length
  let bulk := operation = .getBulk
  let nonRepeaters := if bulk then min pdu.nonRepeaters.toInt.toNat count else 0
  let maxRepetitions := if bulk then pdu.maxRepetitions.toInt.toNat else 0
  let started := if bulk ∧ maxRepetitions = 0 then nonRepeaters else count
  { context := { context with requestId := pdu.requestId, operation, transaction }
    nonRepeaters
    maxRepetitions
    repeaters := if bulk then count - nonRepeaters else 0
    maxSize
    requested := pdu.bindings
    vars := ((pdu.bindings.take started).mapIdx (askedFor operation)).toArray }

/-- The operation being carried out. -/
def operation (r : Request) : Operation := r.context.operation

/-- The number chosen by the requester. -/
def requestId (r : Request) : Int32 := r.context.requestId

/-- The number of variables there are so far. -/
def size (r : Request) : Nat := r.vars.size

/-- The current bindings. -/
def bindings (r : Request) : List Binding := r.vars.toList.map (·.binding)

/-- Whether the work on all variables is done. -/
def isComplete (r : Request) : Bool := r.vars.all (·.isComplete)

/-- The octets of a response with the current bindings. -/
def encodedSize (r : Request) : Nat := Size.response r.requestId.toInt 0 0 r.bindings

/-! ### Rows -/

/-- The first of a list and those that follow it at steps of a certain size. -/
def everyNth {α : Type} (step : Nat) : List α → List α
  | [] => []
  | a :: rest => a :: everyNth step (rest.drop (step - 1))
termination_by l => l.length
decreasing_by
  rw [List.length_drop, List.length_cons]
  omega

/-- The positions of the variables that repeat the one at `index`. -/
def repetitionsOf (r : Request) (index : Nat) : List Nat :=
  let first := if r.repeaters = 0 ∨ index < r.nonRepeaters then r.size else index + r.repeaters
  everyNth (max r.repeaters 1) ((List.range r.size).drop first)

/-- Answers the variable at `position` with a value, and those that follow it at steps of a certain
size. Tells how many there are. -/
def answerEvery (value : Value) (step : Nat) (vs : Array Variable) (position : Nat) :
    Nat × Array Variable :=
  if 0 < step ∧ position < vs.size then
    let (count, vs) :=
      answerEvery value step (vs.modify position (·.answerValue value)) (position + step)
    (count + 1, vs)
  else (0, vs)
termination_by vs.size - position
decreasing_by
  rw [Array.size_modify]
  omega

/-- Gives the exception by which the variable at `index` was answered to the variables that
repeat it. Tells how many there are; without an exception nothing happens. -/
def propagate (r : Request) (index : Nat) : Nat × Request :=
  match r.vars[index]? with
  | none => (0, r)
  | some v =>
    if v.binding.isException then
      if r.repeaters = 0 ∨ index < r.nonRepeaters then (0, r)
      else
        let (count, vars) := answerEvery v.binding.value r.repeaters r.vars (index + r.repeaters)
        (count, { r with vars })
    else (0, r)

/-- The variables of a row, the first row being row zero. -/
def row (r : Request) (n : Nat) : Array Variable :=
  r.vars.extract (r.nonRepeaters + n * r.repeaters) (r.nonRepeaters + (n + 1) * r.repeaters)

/-- How many rows are complete before the first that is not. -/
def completeRows (r : Request) : Nat :=
  let rows := List.range ((r.size - r.nonRepeaters) / r.repeaters)
  (rows.takeWhile fun n => (r.row n).all (·.isComplete)).length

/-- The position among the received bindings of the variable at `index`: a repetition belongs
to the binding of its column. -/
def requestedPosition (r : Request) (index : Nat) : Nat :=
  if r.repeaters = 0 ∨ index < r.nonRepeaters then index
  else r.nonRepeaters + (index - r.nonRepeaters) % r.repeaters

/-! ### Cursors -/

/-- Whether a row just finished at `position` lets another one follow, and the request
afterwards. -/
def closeRow (r : Request) (position : Nat) : Bool × Request :=
  let start := position - r.repeaters
  let last := r.vars.extract start position
  if last.all fun v => v.binding.value == .endOfMibView then
    (false,
      { r with
        vars := if r.nonRepeaters < start then r.vars.take start else r.vars
        exhausted := true })
  else if r.maxSize < r.encodedSize + Size.total (last.toList.map (·.binding.encodedSize)) then
    (false, { r with exhausted := true })
  else (true, r)

/-- Whether there is a variable at `position` for a cursor, or one can be made, and the request
afterwards. A finished row is closed before rows are counted. -/
def hasNext (r : Request) (position : Nat) : Bool × Request :=
  if position < r.size then (true, r)
  else if r.exhausted || r.repeaters == 0 then (false, r)
  else
    let finished := r.nonRepeaters < position ∧ (position - r.nonRepeaters) % r.repeaters = 0
    let (open', r) := if finished then r.closeRow position else (true, r)
    (open' && position < r.nonRepeaters + r.maxRepetitions * r.repeaters, r)

/-- The request with a variable at `position`, made from its predecessor unless it is there
already. -/
def materialize (r : Request) (position : Nat) : Request :=
  if position < r.size ∨ r.repeaters = 0 ∨ position < r.repeaters then r
  else
    let predecessor := position - r.repeaters
    match r.vars[predecessor]? with
    | none => r
    | some p => { r with vars := r.vars.push (.repetition position predecessor p) }

/-- The variable that a cursor at `position` comes to, and the request afterwards. -/
def next (r : Request) (position : Nat) : Option Variable × Request :=
  match r.hasNext position with
  | (true, r) =>
    let r := r.materialize position
    (r.vars[position]?, r)
  | (false, r) => (none, r)

/-- A bound on the positions that a cursor can reach. -/
def cursorLimit (r : Request) : Nat :=
  max r.requested.length (r.nonRepeaters + r.maxRepetitions * r.repeaters)

/-- The request with a changed variable at `index`. -/
def modify (r : Request) (index : Nat) (f : Variable → Variable) : Request :=
  { r with vars := r.vars.modify index f }

/-! ### Failures -/

/-- The first variable that has failed. -/
def firstError? (r : Request) : Option Variable := r.vars.find? (·.hasError)

/-- The status of the first variable that has failed. -/
def status (r : Request) : Status := (r.firstError?.map (·.status)).getD .noError

/-- The position of the received binding of the first variable that has failed, counted from
one, and zero when none has. -/
def errorIndex (r : Request) : Nat :=
  (r.firstError?.map fun v => r.requestedPosition v.index + 1).getD 0

/-! ### Attachments -/

/-- The request with something attached under a name. -/
def attach (r : Request) (name : String) (a : Attachment) : Request :=
  { r with attachments := r.attachments.insert name a }

/-- The number attached under a name. -/
def attachedNumber? (r : Request) (name : String) : Option Int :=
  match r.attachments.get? name with
  | some (.number n) => some n
  | _ => none

/-- The text attached under a name. -/
def attachedText? (r : Request) (name : String) : Option String :=
  match r.attachments.get? name with
  | some (.text s) => some s
  | _ => none

end Request

end MibAgent
