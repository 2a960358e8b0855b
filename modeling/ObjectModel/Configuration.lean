import ObjectModel.Text.Blank
import ObjectModel.Text.Quoted

/-!
# Configuration

Two settings, read from named texts. A text that cannot be read counts as
absent, and one switch makes every other text count as absent.
-/
namespace ObjectModel

structure Configuration where
  /-- The greatest number of states a pool keeps. -/
  poolCapacity : Nat := 64
  /-- Whether a class remembers its lookups. -/
  resolutionCache : Bool := true
  deriving DecidableEq, Repr, Inhabited

namespace Configuration

/-- The text that switches the others off. -/
def ignoreName : String := "RCLASS_IGNORE_ENV"

/-- The text that holds the pool capacity. -/
def poolCapacityName : String := "RCLASS_POOL_CAPACITY"

/-- The text that holds the cache switch. -/
def resolutionCacheName : String := "RCLASS_RESOLUTION_CACHE"

def onWords : List String := ["1", "true", "on", "yes"]

def offWords : List String := ["0", "false", "off", "no"]

/-- A text without the blanks at its ends, its ASCII letters in lower case. -/
def word (text : String) : String :=
  String.ofList ((Text.trim text.toList).map Char.toLower)

def parseFlag (text : String) : Option Bool :=
  if word text ∈ onWords then some true
  else if word text ∈ offWords then some false
  else none

/-- The number denoted by decimal digits, the first one weighing most. -/
def ofDigits (digits : List Char) : Nat :=
  digits.foldl (fun n c => 10 * n + (c.toNat - '0'.toNat)) 0

/-- The digits after an optional plus sign. -/
def unsigned : List Char → List Char
  | '+' :: digits => digits
  | digits => digits

/-- Reads a capacity, which must fit in a word of 64 bits. -/
def parseCapacity (text : String) : Option Nat :=
  let digits := unsigned (Text.trim text.toList)
  if digits ≠ [] ∧ digits.all Char.isDigit ∧ ofDigits digits < UInt64.size then
    some (ofDigits digits)
  else none

/-- Reads the settings from named texts. -/
def ofSettings (lookup : String → Option String) : Configuration :=
  if (lookup ignoreName).bind parseFlag = some true then {}
  else
    { poolCapacity := ((lookup poolCapacityName).bind parseCapacity).getD 64
      resolutionCache := ((lookup resolutionCacheName).bind parseFlag).getD true }

def withPoolCapacity (c : Configuration) (capacity : Nat) : Configuration :=
  { c with poolCapacity := capacity }

def withResolutionCache (c : Configuration) (enabled : Bool) : Configuration :=
  { c with resolutionCache := enabled }

def debug (c : Configuration) : String :=
  Text.record "RuntimeConfig"
    [("pool_capacity", toString c.poolCapacity),
      ("resolution_cache", Text.ofBool c.resolutionCache)]

end Configuration
end ObjectModel
