import ObjectModel.Text.Quoted

/-!
# Arities and signatures

A signature says how a body takes its arguments: a fixed number of them one by
one, with or without the receiver, or all of them as a list. The signature
fixes the arity, so no body is short of an argument once its arity accepts.
That is the main statement.
-/
namespace ObjectModel

inductive Arity where
  | exactly (n : Nat)
  | atLeast (n : Nat)
  deriving DecidableEq, Repr

namespace Arity

def variadic : Arity := .atLeast 0

def accepts : Arity → Nat → Bool
  | exactly n, given => given == n
  | atLeast n, given => n ≤ given

def required : Arity → Nat
  | exactly n => n
  | atLeast n => n

/-- The short text: the number, with a plus sign when more are welcome. -/
def text : Arity → String
  | exactly n => toString n
  | atLeast n => toString n ++ "+"

def debug : Arity → String
  | exactly n => Text.applied "Exact" (toString n)
  | atLeast n => Text.applied "AtLeast" (toString n)

end Arity

/-- How a body takes its arguments. -/
inductive Signature where
  | nullary
  | unary
  | binary
  | receiver
  | receiverUnary
  | receiverBinary
  /-- The receiver and all arguments, of a declared number. -/
  | general (arity : Arity)
  deriving DecidableEq, Repr

namespace Signature

def arity : Signature → Arity
  | nullary | receiver => .exactly 0
  | unary | receiverUnary => .exactly 1
  | binary | receiverBinary => .exactly 2
  | general a => a

/-- Whether the body is given the receiver. -/
def takesReceiver : Signature → Bool
  | nullary | unary | binary => false
  | receiver | receiverUnary | receiverBinary | general _ => true

/-- The arguments a body takes one by one out of those given; none when one of
them is not there. -/
def select {α : Type} : Signature → List α → Option (List α)
  | nullary, _ | receiver, _ => some []
  | unary, args | receiverUnary, args => args[0]?.map fun a => [a]
  | binary, args | receiverBinary, args =>
    args[0]?.bind fun a => args[1]?.map fun b => [a, b]
  | general _, args => some args

def debug : Signature → String
  | nullary => "Nullary"
  | unary => "Unary"
  | binary => "Binary"
  | receiver => "Receiver"
  | receiverUnary => "ReceiverUnary"
  | receiverBinary => "ReceiverBinary"
  | general _ => "Generic"

/-- A body takes exactly the arguments given once the arity accepts them. -/
theorem select_of_accepts {α : Type} {signature : Signature} {args : List α}
    (h : signature.arity.accepts args.length = true) : signature.select args = some args := by
  match signature, args with
  | nullary, [] | receiver, [] => rfl
  | unary, [_] | receiverUnary, [_] => rfl
  | binary, [_, _] | receiverBinary, [_, _] => rfl
  | general _, _ => rfl
  | nullary, _ :: _ | receiver, _ :: _ => simp [arity, Arity.accepts] at h
  | unary, [] | receiverUnary, [] => simp [arity, Arity.accepts] at h
  | unary, _ :: _ :: _ | receiverUnary, _ :: _ :: _ => simp [arity, Arity.accepts] at h
  | binary, [] | receiverBinary, [] => simp [arity, Arity.accepts] at h
  | binary, [_] | receiverBinary, [_] => simp [arity, Arity.accepts] at h
  | binary, _ :: _ :: _ :: _ | receiverBinary, _ :: _ :: _ :: _ =>
    simp [arity, Arity.accepts] at h

end Signature
end ObjectModel
