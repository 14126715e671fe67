import SatMemo.Error

/-! # Settings

    Which family of oracle to use, how large its stores are, and whether a
    bounded check is tried before the decider. -/

namespace SatMemo

/-- A formula library together with a decider. -/
inductive Family where
  /-- N-ary formulas, decided by a clause search. -/
  | clausal
  /-- And-inverter graphs, decided by decision diagrams. -/
  | diagram
deriving Repr, DecidableEq, Inhabited

namespace Family

def all : List Family :=
  [.clausal, .diagram]

def name : Family → String
  | .clausal => "native-expression"
  | .diagram => "fraig"

/-- The family of a tag, in which the case of ASCII letters does not count. -/
def ofTag (tag : String) : Except Error Family :=
  match tag.map Char.toLower with
  | "native" | "native-expr" | "native-expression" => .ok .clausal
  | "fraig" | "aig"                                => .ok .diagram
  | _                                              => .error (.unknownFamily tag)

end Family

structure Settings where
  family      : Family := .clausal
  /-- Binary logarithm of the number of buckets of a store. -/
  storageBits : Nat := 16
  /-- Binary logarithm of the number of slots of a memo table. -/
  memoBits    : Nat := 16
  /-- Try the library's bounded check first? -/
  precheck    : Bool := false
  /-- Budget of the bounded check. -/
  patterns    : Nat := 8
  /-- Seed of the bounded check. -/
  seed        : UInt64 := 0x5eed
  /-- Above 4, answered queries are reported with their formulas. -/
  verbosity   : Nat := 0
deriving Repr, DecidableEq, Inhabited

/-- Stores and memo tables have at most `2 ^ 31` places. -/
def Settings.validate (s : Settings) : Except Error Unit :=
  if 31 < s.storageBits then .error (.invalidBits s.storageBits)
  else if 31 < s.memoBits then .error (.invalidBits s.memoBits)
  else .ok ()

end SatMemo
