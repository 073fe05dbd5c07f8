import MibAgent.Access
import MibAgent.Status
import MibAgent.Value.Size

/-!
# Messages

What an agent is asked, by whom, and what it answers. An operation arrives decoded: its kind,
the id the requester chose for it, the parameters of a bulk read, and the bindings.
-/

namespace MibAgent

/-- The versions of the protocol. -/
inductive Version where
  | v1
  | v2c
  | v3
deriving DecidableEq, Inhabited

namespace Version

/-- The number of a version on the wire. -/
def number : Version → Int
  | v1 => 0
  | v2c => 1
  | v3 => 3

/-- The version with a given number. -/
def ofNumber? : Int → Option Version
  | 0 => some v1
  | 1 => some v2c
  | 3 => some v3
  | _ => none

/-- Whether the version has neither exceptional values nor 64-bit counters, and only the
oldest statuses. -/
def isLegacy : Version → Bool
  | v1 => true
  | _ => false

/-- The version by its name. -/
def toText : Version → String
  | v1 => "SNMPv1"
  | v2c => "SNMPv2c"
  | v3 => "SNMPv3"

/-- How requesters are identified in a version. -/
def securityModel : Version → SecurityModel
  | v1 => .v1
  | v2c => .v2c
  | v3 => .usm

end Version

/-- The kinds of operation. -/
inductive Operation where
  | get
  | getNext
  | getBulk
  | set
deriving DecidableEq, Inhabited

namespace Operation

/-- The octet that announces the operation when it is encoded. -/
def tag : Operation → UInt8
  | get => 0xA0
  | getNext => 0xA1
  | set => 0xA3
  | getBulk => 0xA5

/-- The operation announced by an octet. -/
def ofTag? (tag : UInt8) : Option Operation :=
  [get, getNext, set, getBulk].find? fun op => op.tag == tag

/-- Whether the operation asks for what comes after an OID. -/
def isNext : Operation → Bool
  | getNext | getBulk => true
  | _ => false

/-- Whether the operation changes values. -/
def isWrite : Operation → Bool
  | set => true
  | _ => false

/-- The kind of access the operation needs. -/
def viewKind (op : Operation) : ViewKind := if op.isWrite then .write else .read

/-- The operation by its name. -/
def toText : Operation → String
  | get => "GetRequest"
  | getNext => "GetNextRequest"
  | getBulk => "GetBulkRequest"
  | set => "SetRequest"

end Operation

/-- An operation asked for, with its bindings. The last two numbers are the parameters of a
bulk read. -/
structure Pdu where
  operation : Operation
  requestId : Int32
  bindings : List Binding
  nonRepeaters : Int32 := 0
  maxRepetitions : Int32 := 0
deriving DecidableEq, Inhabited

/-- The operation that asks about some OIDs. -/
def Pdu.asking (operation : Operation) (requestId : Int32) (oids : List Oid) : Pdu :=
  { operation, requestId, bindings := oids.map Binding.ask }

/-- Who asks, and the operation being answered. -/
structure RequestContext where
  version : Version
  model : SecurityModel
  principal : Octets
  level : SecurityLevel
  context : Context
  requestId : Int32
  operation : Operation
  transaction : Nat
deriving DecidableEq, Inhabited

namespace RequestContext

/-- A requester without a name, in the default context. -/
def ofVersion (version : Version) : RequestContext where
  version
  model := version.securityModel
  principal := []
  level := .noAuthNoPriv
  context := none
  requestId := 0
  operation := .get
  transaction := 0

/-- The same requester in the context with a given name. -/
def inContext (c : RequestContext) (name : Octets) : RequestContext :=
  { c with context := Context.ofName (some name) }

/-- The question whether the requester may access an OID. -/
def check (c : RequestContext) (kind : ViewKind) (oid : Oid) : AccessCheck where
  context := c.context
  principal := c.principal
  model := c.model
  level := c.level
  kind
  oid

end RequestContext

/-- The answer to an operation. The index is the position of the binding at fault, counted
from one, and zero when no binding is. -/
structure Response where
  requestId : Int32
  status : Status
  index : Nat
  bindings : List Binding
deriving DecidableEq, Inhabited

/-- Whether the response reports a failure. -/
def Response.isError (r : Response) : Bool := r.status.isError

/-- The octets of the encoded response. -/
def Response.encodedSize (r : Response) : Nat :=
  Size.response r.requestId.toInt r.status.code.toInt r.index r.bindings

/-- What an object answers when it is asked for the value of an OID. -/
inductive ReadResult where
  | value (v : Value)
  | noSuchObject
  | noSuchInstance
deriving DecidableEq, Inhabited

namespace ReadResult

/-- The value found, or that there is no such instance. -/
def ofOption : Option Value → ReadResult
  | some v => value v
  | none => noSuchInstance

/-- The value that reports the answer. -/
def toValue : ReadResult → Value
  | value v => v
  | noSuchObject => .noSuchObject
  | noSuchInstance => .noSuchInstance

end ReadResult

/-- What an object answers when it is asked for the first instance in a window. -/
inductive NextResult where
  | found (b : Binding)
  | endOfView
deriving DecidableEq, Inhabited

namespace NextResult

/-- The instance found, or the end of the view. -/
def ofOption : Option Binding → NextResult
  | some b => found b
  | none => endOfView

/-- The instance found. -/
def toOption : NextResult → Option Binding
  | found b => some b
  | endOfView => none

/-- Whether an instance was found. -/
def isFound : NextResult → Bool
  | found _ => true
  | endOfView => false

end NextResult

end MibAgent
