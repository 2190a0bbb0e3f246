import Fibers.Ident
import Fibers.Failure

/-!
What a resumption carries. Every payload has exactly one type, and an await
names the type it wants; the name of that type appears in the failure of an
await that gets another one. A payload may hold a handle, and then it is one
of the handle's owners.
-/

namespace Fibers

inductive NumberType
  | u8
  | i32
  | i64
  | u64
deriving DecidableEq

inductive PayloadType
  | unit
  | bool
  | number (width : NumberType)
  | char
  | literal
  | string
  | vec
  | opt
  | pair
  | handle
  | pointer
deriving DecidableEq

def PayloadType.name : PayloadType → String
  | .unit => "()"
  | .bool => "bool"
  | .number .u8 => "u8"
  | .number .i32 => "i32"
  | .number .i64 => "i64"
  | .number .u64 => "u64"
  | .char => "char"
  | .literal => "&str"
  | .string => "alloc::string::String"
  | .vec => "alloc::vec::Vec<i32>"
  | .opt => "core::option::Option<i32>"
  | .pair => "(i32, alloc::string::String)"
  | .handle => "FiberHandle"
  | .pointer => "fiberloop_bridge::UserData"

/-- A payload that owns nothing. -/
inductive Scalar
  | unit
  | bool (value : Bool)
  | number (width : NumberType) (value : Int)
  | char (value : String)
  | literal (value : String)
  | string (value : String)
  | vec (values : List Int)
  | opt (value : Option Int)
  | pair (first : Int) (second : String)
  /-- A word that the foreign side passes through. -/
  | pointer (value : Nat)

namespace Scalar

def type : Scalar → PayloadType
  | .unit => .unit
  | .bool _ => .bool
  | .number width _ => .number width
  | .char _ => .char
  | .literal _ => .literal
  | .string _ => .string
  | .vec _ => .vec
  | .opt _ => .opt
  | .pair _ _ => .pair
  | .pointer _ => .pointer

def datum : Scalar → Datum
  | .unit => .null
  | .bool value => .bool value
  | .number _ value => .int value
  | .char value => .text value
  | .literal value => .text value
  | .string value => .text value
  | .vec values => .list (values.map .int)
  | .opt value => .ofOption .int value
  | .pair first second => .list [.int first, .text second]
  | .pointer value => .nat value

end Scalar

inductive Payload
  | scalar (value : Scalar)
  | handle (handle : HandleRef)

def Payload.unit : Payload := .scalar .unit

def Payload.type : Payload → PayloadType
  | .scalar value => value.type
  | .handle _ => .handle

/-- What a fiber receives when control is transferred into it: a value, or an
error that is raised where the fiber suspended. -/
inductive Resumption
  | value (payload : Payload)
  | error (failure : Failure)

def Resumption.unit : Resumption := .value .unit

/-- A value is not looked into; an error shows its causes. -/
def Resumption.describe : Resumption → String
  | .value _ => "Value(..)"
  | .error failure => "Error(" ++ failure.detailed ++ ")"

end Fibers
