import ObjectModel.Method.Basic
import ObjectModel.Number.Binary64

/-!
# Values

A value is nil or a payload at an address. The address is the identity of the
value: copies share it, and every new value has a fresh one. Integers, floats,
truth values and texts compare by content, everything else by identity.
-/
namespace ObjectModel

inductive Payload (Code : Type) where
  | int (n : Int64)
  | float (x : Binary64)
  | bool (b : Bool)
  | text (s : String)
  /-- A method whose receivers are on the given side. -/
  | method (receivers : Side) (m : Method Code)
  /-- An object of the host, of which only the name of its type and a label
  chosen by the host are known. -/
  | foreign (typeName label : String)
  deriving DecidableEq

inductive Value (Code : Type) where
  | nil
  | object (address : Nat) (payload : Payload Code)
  deriving DecidableEq

namespace Payload
variable {Code : Type}

def typeName : Payload Code → String
  | int _ => "i64"
  | float _ => "f64"
  | bool _ => "bool"
  | text _ => "alloc::string::String"
  | method .instanceSide _ =>
    "rclass_runtime::object::method::Method<rclass_runtime::object::instance::Instance>"
  | method .classSide _ =>
    "rclass_runtime::object::method::Method<rclass_runtime::object::class::Class>"
  | foreign name _ => name

/-- Whether two payloads are of one of the four kinds that compare by content,
and have the same content. -/
def sameContent : Payload Code → Payload Code → Bool
  | int a, int b => a == b
  | float a, float b => a.numEq b
  | bool a, bool b => a == b
  | text a, text b => a == b
  | _, _ => false

def debug : Payload Code → String
  | int n => toString n.toInt
  | float x => x.text
  | bool b => Text.ofBool b
  | text s => Text.quote s
  | p => "#<" ++ p.typeName ++ ">"

end Payload

namespace Value
variable {Code : Type}

instance : Inhabited (Value Code) := ⟨.nil⟩

def isNil : Value Code → Bool
  | nil => true
  | object _ _ => false

def payload? : Value Code → Option (Payload Code)
  | nil => none
  | object _ p => some p

def int? : Value Code → Option Int64
  | object _ (.int n) => some n
  | _ => none

def float? : Value Code → Option Binary64
  | object _ (.float x) => some x
  | _ => none

def bool? : Value Code → Option Bool
  | object _ (.bool b) => some b
  | _ => none

def text? : Value Code → Option String
  | object _ (.text s) => some s
  | _ => none

/-- The method a value holds, when its receivers are on the given side. -/
def method? (receivers : Side) : Value Code → Option (Method Code)
  | object _ (.method side m) => if side = receivers then some m else none
  | _ => none

/-- The label of the host object a value holds, when it has the given type. -/
def foreign? (typeName : String) : Value Code → Option String
  | object _ (.foreign name label) => if name = typeName then some label else none
  | _ => none

/-- Everything counts as true but nil and false. -/
def isTruthy (v : Value Code) : Bool := v.bool?.getD (!v.isNil)

def typeName : Value Code → String
  | nil => "nil"
  | object _ p => p.typeName

/-- Whether two values are the same one. -/
def same : Value Code → Value Code → Bool
  | nil, nil => true
  | object a _, object b _ => a == b
  | _, _ => false

/-- Whether two values are equal: the same one, or equal in content. -/
def equal (v w : Value Code) : Bool :=
  v.same w || match v, w with
    | object _ p, object _ q => p.sameContent q
    | _, _ => false

def debug : Value Code → String
  | nil => "nil"
  | object _ p => p.debug

/-- A value as shown: a text is shown without quotes. -/
def display (v : Value Code) : String := v.text?.getD v.debug

end Value

/-- What a body hands back: a value it already has, or the content of a new
one. -/
inductive Reply (Code : Type) where
  | existing (v : Value Code)
  | fresh (p : Payload Code)
  deriving DecidableEq

namespace Reply
variable {Code : Type}

instance : Inhabited (Reply Code) := ⟨.existing .nil⟩

def unit : Reply Code := .existing .nil

def int (n : Int64) : Reply Code := .fresh (.int n)

/-- An integer of 32 bits, which becomes one of 64 bits. -/
def int32 (n : Int32) : Reply Code := .fresh (.int n.toInt64)

def float (x : Binary64) : Reply Code := .fresh (.float x)

def bool (b : Bool) : Reply Code := .fresh (.bool b)

def text (s : String) : Reply Code := .fresh (.text s)

/-- What is inside an option, or nothing. -/
def ofOption {α : Type} (reply : α → Reply Code) : Option α → Reply Code
  | none => unit
  | some a => reply a

/-- The value handed back, and the next free address after it. -/
def box (address : Nat) : Reply Code → Value Code × Nat
  | existing v => (v, address)
  | fresh p => (.object address p, address + 1)

end Reply
end ObjectModel
