import MibAgent.Octets.Utf8
import MibAgent.Oid

/-!
# Values and bindings

The values a variable can hold, and the exceptional answers that take the place of a value
when there is none. A binding pairs an OID with a value.
-/

namespace MibAgent

/-- A value, or the reason there is none. -/
inductive Value where
  | integer (n : Int32)
  | octetString (s : Octets)
  | null
  | objectIdentifier (oid : Oid)
  | ipAddress (a b c d : UInt8)
  | counter32 (n : UInt32)
  | gauge32 (n : UInt32)
  | timeTicks (n : UInt32)
  /-- Octets whose structure only the application knows. -/
  | opaqueData (s : Octets)
  | counter64 (n : UInt64)
  | noSuchObject
  | noSuchInstance
  | endOfMibView
deriving DecidableEq, Inhabited

namespace Value

/-- Whether the value says that there is no value. -/
def isException : Value → Bool
  | noSuchObject | noSuchInstance | endOfMibView => true
  | _ => false

/-- Whether the value is a 64-bit counter, which the first version of the protocol cannot
carry. -/
def isCounter64 : Value → Bool
  | counter64 _ => true
  | _ => false

/-- The octet that announces the kind of the value when it is encoded. -/
def tag : Value → UInt8
  | integer _ => 0x02
  | octetString _ => 0x04
  | null => 0x05
  | objectIdentifier _ => 0x06
  | ipAddress .. => 0x40
  | counter32 _ => 0x41
  | gauge32 _ => 0x42
  | timeTicks _ => 0x43
  | opaqueData _ => 0x44
  | counter64 _ => 0x46
  | noSuchObject => 0x80
  | noSuchInstance => 0x81
  | endOfMibView => 0x82

/-- The value in print. A string of octets is shown as text when it is UTF-8. -/
def toText : Value → String
  | integer n => n.toInt.repr
  | octetString s => (s.toText?).getD s.toHexList
  | null => "NULL"
  | objectIdentifier oid => oid.toText
  | ipAddress a b c d => ".".intercalate ([a, b, c, d].map fun n => n.toNat.repr)
  | counter32 n | gauge32 n | timeTicks n => n.toNat.repr
  | opaqueData s => "Opaque(" ++ s.toHexList ++ ")"
  | counter64 n => n.toNat.repr
  | noSuchObject => "noSuchObject"
  | noSuchInstance => "noSuchInstance"
  | endOfMibView => "endOfMibView"

end Value

/-- An OID together with the value bound to it. -/
structure Binding where
  oid : Oid
  value : Value
deriving DecidableEq, Inhabited

namespace Binding

/-- The binding that asks for the value of `oid`. -/
def ask (oid : Oid) : Binding := ⟨oid, .null⟩

/-- Whether the binding says that there is no value. -/
def isException (b : Binding) : Bool := b.value.isException

/-- The binding in print. -/
def toText (b : Binding) : String := b.oid.toText ++ " = " ++ b.value.toText

end Binding

end MibAgent
