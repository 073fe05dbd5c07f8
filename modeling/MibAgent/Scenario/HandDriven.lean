import MibAgent.Request.Response

/-!
# Requests driven by hand

A request can be driven without an agent: cursors walk over its variables, and what they come
to is treated as a script says.
-/

namespace MibAgent.Scenario

/-- What to do to a variable. -/
inductive Treatment where
  | leave
  | complete
  | answer (b : Binding)
  | answerValue (v : Value)
  | fail (code : Int32)
  /-- Answer with the first of the data in the scope of the variable, or with the end of the
  view, unless the variable is complete. -/
  | scan
deriving DecidableEq, Inhabited

/-- A variable after its treatment. -/
def Treatment.apply (data : OrderedMap Oid Value) (v : Variable) : Treatment → Variable
  | leave => v
  | complete => v.complete
  | answer b => v.answer b
  | answerValue value => v.answerValue value
  | fail code => v.fail (.ofCode code)
  | scan =>
    if v.isComplete then v
    else
      match v.scope.firstEntry? data with
      | some (oid, value) => v.answer ⟨oid, value⟩
      | none => v.answerValue .endOfMibView

/-- One thing to do to a request. -/
inductive Move where
  /-- Moves a cursor on, and treats what it comes to. -/
  | next (cursor : Nat) (how : Treatment)
  /-- Moves a new cursor to the end, treating all it comes to. -/
  | walk (how : Treatment)
  | treat (index : Nat) (how : Treatment)
  | look (index : Nat)
  | repetitions (index : Nat)
  | propagate (index : Nat)
  | state
  | response
  | attach (name : String) (a : Attachment)
  | attached (name : String)
deriving DecidableEq, Inhabited

/-- What a move answers. -/
inductive Finding where
  /-- What a cursor came to, before its treatment, and where the cursor is. -/
  | reached (v : Option Variable) (position : Nat)
  /-- What a cursor came to, after the treatments, and where the cursor is. -/
  | walked (seen : List Binding) (position : Nat)
  | looked (v : Option Variable)
  | repetitions (vs : List Variable)
  | count (n : Nat)
  | state
  | response (r : Response)
  | nothing
  | attached (number : Option Int) (text : Option String)
deriving DecidableEq, Inhabited

/-- A request and the positions of its cursors. -/
structure HandDriven where
  request : Request
  cursors : OrderedMap Nat Nat
deriving Inhabited

namespace HandDriven

/-- A request without cursors. -/
def ofRequest (request : Request) : HandDriven := ⟨request, .empty⟩

/-- Moves a cursor from a position to the end, in at most so many steps. -/
def walkFrom (data : OrderedMap Oid Value) (how : Treatment) :
    (steps position : Nat) → Request → List Binding × Nat × Request
  | 0, position, r => ([], position, r)
  | steps + 1, position, r =>
    match r.next position with
    | (none, r) => ([], position, r)
    | (some v, r) =>
      let v := how.apply data v
      let (seen, last, r) :=
        walkFrom data how steps (position + 1) (r.modify position fun _ => v)
      (v.binding :: seen, last, r)

/-- Carries out a move. -/
def step (data : OrderedMap Oid Value) (h : HandDriven) : Move → Finding × HandDriven
  | .next cursor how =>
    let position := (h.cursors.get? cursor).getD 0
    match h.request.next position with
    | (none, r) =>
      (.reached none position, ⟨r, h.cursors.insert cursor position⟩)
    | (some v, r) =>
      (.reached (some v) (position + 1),
        ⟨r.modify position (how.apply data ·), h.cursors.insert cursor (position + 1)⟩)
  | .walk how =>
    let (seen, position, r) := walkFrom data how (h.request.cursorLimit + 1) 0 h.request
    (.walked seen position, { h with request := r })
  | .treat index how =>
    let r := h.request.modify index (how.apply data ·)
    (.looked r.vars[index]?, { h with request := r })
  | .look index => (.looked h.request.vars[index]?, h)
  | .repetitions index =>
    (.repetitions ((h.request.repetitionsOf index).filterMap (h.request.vars[·]?)), h)
  | .propagate index =>
    let (count, r) := h.request.propagate index
    (.count count, { h with request := r })
  | .state => (.state, h)
  | .response => (.response h.request.response, h)
  | .attach name a => (.nothing, { h with request := h.request.attach name a })
  | .attached name =>
    (.attached (h.request.attachedNumber? name) (h.request.attachedText? name), h)

/-- What each of some moves answers, with the request after it. -/
def run (data : OrderedMap Oid Value) (h : HandDriven) : List Move → List (Finding × Request)
  | [] => []
  | move :: rest =>
    let (finding, h) := h.step data move
    (finding, h.request) :: h.run data rest

end HandDriven

end MibAgent.Scenario
