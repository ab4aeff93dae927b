/-
Outlines: the one-line text of a value as it appears in logs and diagnostics.

An outline is a small tree of constructors with arguments and records with named fields.  Secrets
stay out of it: a type that holds one gives an incomplete record, which `render` closes with `..`.
-/

namespace PskHandshake

/-- The shape of a value, for display. -/
inductive Outline
  /-- A word that is written as it stands: a number, a constant, an address. -/
  | atom (text : String)
  /-- A text, written between double quotes. -/
  | quoted (text : String)
  /-- A sequence of octets, written in decimal. -/
  | octets (bytes : List UInt8)
  /-- A sequence. -/
  | sequence (items : List Outline)
  /-- A constructor applied to one argument. -/
  | applied (head : String) (argument : Outline)
  /-- A record; `complete` is `false` when some of its fields are withheld. -/
  | record (head : String) (fields : List (String × Outline)) (complete : Bool)

namespace Outline

/-- How one character stands in a quoted text.  Control characters without a short escape are
written by their code in lower-case hexadecimal.  The rule is made for texts in ASCII: a character
outside it stands for itself, also where it is a control character, a combining mark or otherwise
unprintable and a reader would rather see its code. -/
def escape (c : Char) : List Char :=
  match c with
  | '"' => ['\\', '"']
  | '\\' => ['\\', '\\']
  | '\t' => ['\\', 't']
  | '\n' => ['\\', 'n']
  | '\r' => ['\\', 'r']
  | '\x00' => ['\\', '0']
  | c =>
    if c.toNat < 0x20 ∨ c.toNat = 0x7f then
      ['\\', 'u', '\x7b'] ++ Nat.toDigits 16 c.toNat ++ ['\x7d']
    else
      [c]

/-- A text between double quotes, with every character escaped. -/
def quote (text : String) : String :=
  String.ofList ('"' :: text.toList.flatMap escape ++ ['"'])

/-- The items of a sequence, between square brackets. -/
def bracketed (items : List String) : String :=
  "[" ++ ", ".intercalate items ++ "]"

/-- The parts of a record, between braces. -/
def braced (head : String) (parts : List String) : String :=
  head ++ " \x7b " ++ ", ".intercalate parts ++ " \x7d"

mutual

def render : Outline → String
  | atom text => text
  | quoted text => quote text
  | octets bytes => bracketed (bytes.map fun b => toString b.toNat)
  | sequence items => bracketed (renderItems items)
  | applied head argument => head ++ "(" ++ argument.render ++ ")"
  | record head fields complete =>
    braced head (renderFields fields ++ if complete then [] else [".."])

def renderItems : List Outline → List String
  | [] => []
  | item :: items => item.render :: renderItems items

/-- The fields of a record, each as `name: value`. -/
def renderFields : List (String × Outline) → List String
  | [] => []
  | (name, value) :: fields => (name ++ ": " ++ value.render) :: renderFields fields

end

def number (n : Nat) : Outline := atom (toString n)

def truth (b : Bool) : Outline := atom (if b then "true" else "false")

/-- A value that may be missing. -/
def optional : Option Outline → Outline
  | none => atom "None"
  | some value => applied "Some" value

/-- The outcome of an operation that may fail. -/
def outcome {ε α : Type} (ofError : ε → Outline) (ofValue : α → Outline) :
    Except ε α → Outline
  | .error e => applied "Err" (ofError e)
  | .ok a => applied "Ok" (ofValue a)

end Outline

end PskHandshake
