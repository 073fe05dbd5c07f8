/-!
# Status of a variable

The outcome of an operation on a variable, as reported in a response. The first version of
the protocol knows only the statuses up to `genErr`; `toLegacy` maps the later ones to
those.
-/

namespace MibAgent

/-- The outcome of an operation on a variable. -/
inductive Status where
  | noError
  | tooBig
  | noSuchName
  | badValue
  | readOnly
  | genErr
  | noAccess
  | wrongType
  | wrongLength
  | wrongEncoding
  | wrongValue
  | noCreation
  | inconsistentValue
  | resourceUnavailable
  | commitFailed
  | undoFailed
  | authorizationError
  | notWritable
  | inconsistentName
  /-- A status without a name. -/
  | unknown (code : Int32)
deriving DecidableEq, Inhabited

namespace Status

/-- The statuses with a name, in the order of their codes. -/
def named : List Status :=
  [noError, tooBig, noSuchName, badValue, readOnly, genErr, noAccess, wrongType, wrongLength,
    wrongEncoding, wrongValue, noCreation, inconsistentValue, resourceUnavailable, commitFailed,
    undoFailed, authorizationError, notWritable, inconsistentName]

/-- The number by which a status is reported. -/
def code : Status → Int32
  | noError => 0
  | tooBig => 1
  | noSuchName => 2
  | badValue => 3
  | readOnly => 4
  | genErr => 5
  | noAccess => 6
  | wrongType => 7
  | wrongLength => 8
  | wrongEncoding => 9
  | wrongValue => 10
  | noCreation => 11
  | inconsistentValue => 12
  | resourceUnavailable => 13
  | commitFailed => 14
  | undoFailed => 15
  | authorizationError => 16
  | notWritable => 17
  | inconsistentName => 18
  | unknown code => code

/-- The status with a given number. -/
def ofCode (code : Int32) : Status :=
  (named.find? fun status => status.code == code).getD (unknown code)

/-- Whether the status is a failure. -/
def isError : Status → Bool
  | noError => false
  | _ => true

/-- The status in the vocabulary of the first version of the protocol. -/
def toLegacy : Status → Status
  | notWritable | noAccess | noCreation | inconsistentName => noSuchName
  | wrongValue | wrongLength | inconsistentValue | wrongType | wrongEncoding => badValue
  | authorizationError | resourceUnavailable | commitFailed | undoFailed => genErr
  | status => status

/-- The name of a status. -/
def toText : Status → String
  | noError => "noError"
  | tooBig => "tooBig"
  | noSuchName => "noSuchName"
  | badValue => "badValue"
  | readOnly => "readOnly"
  | genErr => "genErr"
  | noAccess => "noAccess"
  | wrongType => "wrongType"
  | wrongLength => "wrongLength"
  | wrongEncoding => "wrongEncoding"
  | wrongValue => "wrongValue"
  | noCreation => "noCreation"
  | inconsistentValue => "inconsistentValue"
  | resourceUnavailable => "resourceUnavailable"
  | commitFailed => "commitFailed"
  | undoFailed => "undoFailed"
  | authorizationError => "authorizationError"
  | notWritable => "notWritable"
  | inconsistentName => "inconsistentName"
  | unknown code => "unknown(" ++ code.toInt.repr ++ ")"

end Status

/-- The result an object gives for one phase of a write. -/
inductive WriteResult where
  | ok
  | noAccess
  | notWritable
  | wrongType
  | wrongLength
  | wrongEncoding
  | wrongValue
  | noCreation
  | inconsistentValue
  | resourceUnavailable
  | commitFailed
  | undoFailed
  | inconsistentName
deriving DecidableEq, Inhabited

namespace WriteResult

/-- Whether the phase succeeded. -/
def isOk (r : WriteResult) : Bool := r == ok

/-- The status that reports the result. -/
def toStatus : WriteResult → Status
  | ok => .noError
  | noAccess => .noAccess
  | notWritable => .notWritable
  | wrongType => .wrongType
  | wrongLength => .wrongLength
  | wrongEncoding => .wrongEncoding
  | wrongValue => .wrongValue
  | noCreation => .noCreation
  | inconsistentValue => .inconsistentValue
  | resourceUnavailable => .resourceUnavailable
  | commitFailed => .commitFailed
  | undoFailed => .undoFailed
  | inconsistentName => .inconsistentName

end WriteResult

end MibAgent
