import ObjectModel.Method.Signature
import ObjectModel.Data.Table

/-!
# Methods

A method is a name, the side it answers on, a signature and a body. Bodies given
by the host are codes, whose meaning is supplied when a program runs; the
bodies of attribute accessors are known here.
-/
namespace ObjectModel

/-- The side a method answers on. -/
inductive Side where
  | instanceSide
  | classSide
  deriving DecidableEq, Repr, Inhabited

def Side.debug : Side → String
  | instanceSide => "Instance"
  | classSide => "Class"

/-- What a method does. -/
inductive Body (Code : Type) where
  /-- Answers the receiver's instance variable. -/
  | reader (name : String)
  /-- Sets the receiver's instance variable to the argument and answers it. -/
  | writer (name : String)
  | host (code : Code)
  deriving DecidableEq, Repr

structure Method (Code : Type) where
  name : String := "<anonymous>"
  side : Side := .instanceSide
  signature : Signature
  body : Body Code
  deriving DecidableEq, Repr

namespace Method
variable {Code : Type}

/-- An unnamed method with a body of the host. -/
def ofSignature (signature : Signature) (code : Code) : Method Code :=
  { signature, body := .host code }

/-- An unnamed method over all its arguments, with a declared arity. -/
def withArity (arity : Arity) (code : Code) : Method Code := ofSignature (.general arity) code

/-- An unnamed method over any number of arguments. -/
def variadic (code : Code) : Method Code := withArity .variadic code

def reader (name : String) : Method Code := { signature := .receiver, body := .reader name }

def writer (name : String) : Method Code := { signature := .receiverUnary, body := .writer name }

def arity (m : Method Code) : Arity := m.signature.arity

/-- The method under another name and on another side. -/
def named (m : Method Code) (name : String) (side : Side) : Method Code :=
  { m with name, side }

def debug (m : Method Code) : String :=
  Text.record "Method"
    [("name", Text.quote m.name), ("kind", m.side.debug), ("arity", m.arity.debug),
      ("shape", m.signature.debug)]

end Method

/-- Methods under their names. -/
abbrev MethodDictionary (Code : Type) := Table (Method Code)

namespace MethodDictionary
variable {Code : Type}

/-- Puts a method under its own name. -/
def define (t : MethodDictionary Code) (m : Method Code) : MethodDictionary Code :=
  t.insert m.name m

def debug (t : MethodDictionary Code) : String :=
  Text.record "MethodTable" [("methods", Text.list (t.names.map Text.quote))]

def singletonDebug (t : MethodDictionary Code) : String :=
  Text.record "EigenTable" [("methods", t.debug)]

end MethodDictionary
end ObjectModel
