import Mathlib.Data.Rat.Init
import Mathlib.Data.Int.Notation
import Mathlib.Data.List.Sort
import Mathlib.Data.Nat.Notation

/-!
# Values and texts of the host language

The objects that tools take and return are JSON values.  What the agent does with them is
here: `Json.dumps` serialises a value, `Json.pyStr` is `str(value)`, and `Json.get` looks up
a key of a dictionary.

A `Host` is what the interpreter brings along and no function of the agent defines: the
digest function, the tables of the Unicode database, and how numbers and texts print.
-/

namespace RagflowAgent
namespace Agent

/-- What the interpreter supplies. -/
structure Host where
  /-- `hashlib.sha256(text.encode()).hexdigest()`. -/
  sha256 : String → String
  /-- `repr` of a float. -/
  reprFloat : ℚ → String
  /-- `repr` of a text. -/
  reprStr : String → String
  /-- `str.lower`. -/
  lower : String → String
  /-- `str.isalnum` of one character. -/
  isAlnum : Char → Bool

inductive Json where
  | null
  | bool (value : Bool)
  | int (value : ℤ)
  | float (value : ℚ)
  | str (value : String)
  | list (items : List Json)
  | dict (entries : List (String × Json))

namespace Json

instance : Inhabited Json := ⟨null⟩

/-- `dict.get`. -/
def get (entries : List (String × Json)) (key : String) : Option Json :=
  (entries.find? fun entry => entry.1 = key).map Prod.snd

/-- `value.get(key)` where the value is a dictionary. -/
def get? : Json → String → Option Json
  | dict entries, key => get entries key
  | _, _ => none

/-! ## Serialisation -/

def hexDigit (n : ℕ) : Char := "0123456789abcdef".toList.getD n '0'

/-- A `\u` escape of a 16 bit unit. -/
def unicodeEscape (n : ℕ) : List Char :=
  ['\\', 'u', hexDigit (n / 4096 % 16), hexDigit (n / 256 % 16), hexDigit (n / 16 % 16),
    hexDigit (n % 16)]

/-- One character of a serialised text: only printable ASCII stays as it is. -/
def escape (c : Char) : List Char :=
  match c with
  | '\"' => ['\\', '\"']
  | '\\' => ['\\', '\\']
  | '\n' => ['\\', 'n']
  | '\r' => ['\\', 'r']
  | '\t' => ['\\', 't']
  | c =>
    let n := c.toNat
    if n = 8 then ['\\', 'b']
    else if n = 12 then ['\\', 'f']
    else if 0x20 ≤ n ∧ n ≤ 0x7E then [c]
    else if n < 0x10000 then unicodeEscape n
    else unicodeEscape (0xD800 + (n - 0x10000) / 0x400) ++
      unicodeEscape (0xDC00 + (n - 0x10000) % 0x400)

def quote (s : String) : String := String.ofList ('\"' :: s.toList.flatMap escape ++ ['\"'])

/-- Entries in the order of their keys, with their serialised values. -/
def sortKeys (entries : List (String × String)) : List (String × String) :=
  entries.insertionSort fun entry entry' => entry.1 ≤ entry'.1

mutual

/-- `json.dumps(value, sort_keys=True, separators=(",", ":"))`. -/
def dumps (host : Host) : Json → String
  | null => "null"
  | bool true => "true"
  | bool false => "false"
  | int value => toString value
  | float value => host.reprFloat value
  | str value => quote value
  | list items => "[" ++ ",".intercalate (dumpsItems host items) ++ "]"
  | dict entries =>
    "\x7b" ++ ",".intercalate ((sortKeys (dumpsEntries host entries)).map fun entry =>
      quote entry.1 ++ ":" ++ entry.2) ++ "\x7d"

def dumpsItems (host : Host) : List Json → List String
  | [] => []
  | item :: items => dumps host item :: dumpsItems host items

def dumpsEntries (host : Host) : List (String × Json) → List (String × String)
  | [] => []
  | (key, value) :: entries => (key, dumps host value) :: dumpsEntries host entries

end

mutual

/-- `repr(value)`. -/
def pyRepr (host : Host) : Json → String
  | null => "None"
  | bool true => "True"
  | bool false => "False"
  | int value => toString value
  | float value => host.reprFloat value
  | str value => host.reprStr value
  | list items => "[" ++ ", ".intercalate (pyReprItems host items) ++ "]"
  | dict entries => "\x7b" ++ ", ".intercalate (pyReprEntries host entries) ++ "\x7d"

def pyReprItems (host : Host) : List Json → List String
  | [] => []
  | item :: items => pyRepr host item :: pyReprItems host items

def pyReprEntries (host : Host) : List (String × Json) → List String
  | [] => []
  | (key, value) :: entries =>
    (host.reprStr key ++ ": " ++ pyRepr host value) :: pyReprEntries host entries

end

/-- `str(value)`. -/
def pyStr (host : Host) : Json → String
  | str value => value
  | value => pyRepr host value

end Json

end Agent
end RagflowAgent
