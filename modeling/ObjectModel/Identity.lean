/-!
# Identities

Classes, instances, pools and variable stores are known by number. Names of
classes need not differ; numbers do. Numbers of classes and of instances stand
for words of 64 bits, on the assumption that fewer than `2 ^ 64` of each are
made, so that no number is given out twice.
-/
namespace ObjectModel

structure ClassId where
  number : Nat
  deriving DecidableEq, Repr, Inhabited

structure InstanceId where
  number : Nat
  deriving DecidableEq, Repr, Inhabited

structure PoolId where
  number : Nat
  deriving DecidableEq, Repr, Inhabited

structure StoreId where
  number : Nat
  deriving DecidableEq, Repr, Inhabited

/-- What a message is sent to. -/
inductive Receiver where
  | ofInstance (i : InstanceId)
  | ofClass (k : ClassId)
  deriving DecidableEq, Repr, Inhabited

end ObjectModel
