import SatMemo.Explore.Paths
import SatMemo.Text.Quoted

/-! # Options of the command line

    Long options with a value, which follows as the next argument or after an
    equals sign, and one without.  No option may be given twice, no other
    argument may be given, and a value of its own argument does not start with a
    dash.  Numbers are decimal digits behind an optional sign, and nothing
    else. -/

namespace SatMemo

/-! ## Numbers as they are typed -/

/-- The number written by at least one decimal digit. -/
def digits? (cs : List Char) : Option Nat :=
  if cs.isEmpty then none
  else
    cs.foldl
      (fun n? c => do
        let n ← n?
        if '0' ≤ c && c ≤ '9' then some (10 * n + (c.toNat - '0'.toNat)) else none)
      (some 0)

/-- A number below `limit`, for which a plus sign is allowed. -/
def natBelow? (limit : Nat) (s : String) : Option Nat := do
  let n ← match s.toList with
    | '+' :: cs => digits? cs
    | cs        => digits? cs
  if n < limit then some n else none

/-- A number below `limit`, for which either sign is allowed; only zero may be negative. -/
def signedBelow? (limit : Nat) (s : String) : Option Nat :=
  match s.toList with
  | '-' :: cs => if digits? cs = some 0 then some 0 else none
  | _         => natBelow? limit s

/-! ## Options -/

structure Options where
  backend   : String := "native"
  vars      : Nat := 10
  depth     : Nat := 8
  width     : Nat := 2
  verbosity : Nat := 0
  precheck  : Bool := false
  seed      : UInt64 := 42
deriving Repr, DecidableEq, Inhabited

namespace Options

/-- The options on one line. -/
def text (o : Options) : String :=
  "Cli \x7b " ++ ", ".intercalate
    [s!"backend: {quoted o.backend}", s!"vars: {o.vars}", s!"depth: {o.depth}",
     s!"width: {o.width}", s!"verbosity: {o.verbosity}", s!"precheck: {o.precheck}",
     s!"seed: {o.seed}"] ++ " \x7d"

/-- An option that takes a value. -/
inductive Name where
  | backend
  | vars
  | depth
  | width
  | verbosity
  | seed
deriving Repr, DecidableEq

def Name.ofText? : String → Option Name
  | "backend"   => some .backend
  | "vars"      => some .vars
  | "depth"     => some .depth
  | "width"     => some .width
  | "verbosity" => some .verbosity
  | "seed"      => some .seed
  | _           => none

/-- Counts and seeds have 64 bits. -/
def wordLimit : Nat := 0x10000000000000000

/-- Set an option from its text, if that is a value it can have. -/
def set? (o : Options) (name : Name) (value : String) : Option Options :=
  match name with
  | .backend   => some { o with backend := value }
  | .vars      => (natBelow? wordLimit value).map fun n => { o with vars := n }
  | .depth     => (natBelow? wordLimit value).map fun n => { o with depth := n }
  | .width     => (natBelow? wordLimit value).map fun n => { o with width := n }
  | .verbosity => (signedBelow? 256 value).map fun n => { o with verbosity := n }
  | .seed      => (natBelow? wordLimit value).map fun n => { o with seed := UInt64.ofNat n }

/-! ## Arguments -/

/-- Why a command line gives no options. -/
inductive Refusal where
  /-- It is not understood. -/
  | usage
  /-- It asks for help or for the version. -/
  | information
deriving Repr, DecidableEq

/-- One argument by its form. -/
inductive Argument where
  /-- The mark behind which there are no options. -/
  | separator
  /-- A long option, perhaps with a value after an equals sign. -/
  | long (name : String) (value? : Option String)
  /-- Letters behind one dash. -/
  | short (letters : List Char)
  /-- Anything else; a single dash is one. -/
  | plain (text : String)
deriving Repr, DecidableEq

def Argument.ofText (s : String) : Argument :=
  match s.toList with
  | ['-', '-']       => .separator
  | '-' :: '-' :: cs =>
      match cs.dropWhile (· ≠ '=') with
      | []      => .long (.ofList cs) none
      | _ :: vs => .long (.ofList (cs.takeWhile (· ≠ '='))) (some (.ofList vs))
  | '-' :: c :: cs   => .short (c :: cs)
  | _                => .plain s

/-- Read arguments into `o`, where `given` are the options with a value that were set. -/
def read (o : Options) (given : List Name) : List String → Except Refusal Options
  | []          => .ok o
  | arg :: rest =>
      match Argument.ofText arg with
      | .separator           => if rest.isEmpty then .ok o else .error .usage
      | .plain _             => .error .usage
      | .short letters       =>
          if letters.head? = some 'h' ∨ letters.head? = some 'V' then .error .information
          else .error .usage
      | .long "help" none    => .error .information
      | .long "version" none => .error .information
      | .long "precheck" none =>
          if o.precheck then .error .usage else read { o with precheck := true } given rest
      | .long name value?    =>
          match Name.ofText? name with
          | none      => .error .usage
          | some name =>
              if name ∈ given then
                .error .usage
              else
                match value?, rest with
                | some value, rest    =>
                    match o.set? name value with
                    | some o => read o (name :: given) rest
                    | none   => .error .usage
                | none, []            => .error .usage
                | none, value :: rest =>
                    match Argument.ofText value, o.set? name value with
                    | .plain _, some o => read o (name :: given) rest
                    | _, _             => .error .usage

/-- The options that a command line gives. -/
def ofArgs (args : List String) : Except Refusal Options :=
  read {} [] args

/-! ## What they ask for -/

def settings (o : Options) : Except Error Settings := do
  let family ← Family.ofTag o.backend
  return { family, precheck := o.precheck, seed := o.seed, verbosity := o.verbosity }

def program (o : Options) : Exploration.Program where
  inputs := o.vars
  depth  := o.depth
  width  := o.width
  seed   := o.seed

end Options

end SatMemo
