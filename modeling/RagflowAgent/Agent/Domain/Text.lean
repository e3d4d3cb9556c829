import RagflowAgent.Agent.Domain.Json
import RagflowAgent.Text.Pattern

/-!
# Texts that are not trusted

`containsPromptInjection` flags a text that tries to give instructions, and
`redactSecretLikeText` blanks what looks like a credential.  Both are searches for a fixed
pattern in which the case of letters does not matter.
-/

namespace RagflowAgent
namespace Agent

open Text Text.Pattern

/-- The characters that `\s` matches and that `str.strip` takes away. -/
def isSpace (c : Char) : Bool :=
  let n := c.toNat
  (0x09 ≤ n && n ≤ 0x0D) || (0x1C ≤ n && n ≤ 0x20) || n == 0x85 || n == 0xA0 ||
    n == 0x1680 || (0x2000 ≤ n && n ≤ 0x200A) || n == 0x2028 || n == 0x2029 ||
    n == 0x202F || n == 0x205F || n == 0x3000

/-- `str.strip()`. -/
def strip (s : String) : String :=
  String.ofList (((s.toList.dropWhile isSpace).reverse.dropWhile isSpace).reverse)

/-- `s[:n]`. -/
def takeText (n : ℕ) (s : String) : String := String.ofList (s.toList.take n)

/-- The characters that match `c` when case is ignored.  Beside the two letters of ASCII
these are the dotted and the dotless i, the long s and the sign for kelvin. -/
def caseless (c : Char) (x : Char) : Bool :=
  x == c || x == c.toUpper ||
    (c == 'i' && (x.toNat == 0x130 || x.toNat == 0x131)) ||
    (c == 's' && x.toNat == 0x17F) || (c == 'k' && x.toNat == 0x212A)

/-- A word of a pattern, in lower case. -/
def word (s : String) : Pattern := literal caseless s.toList

/-- `\s+`. -/
def spaces : Pattern := many isSpace 1 none

/-- `.*`. -/
def anyText : Pattern := many (fun c => c ≠ '\n') 0 none

/-- `.{0,12}`. -/
def shortGap : Pattern := many (fun c => c ≠ '\n') 0 (some 12)

/-- `_PROMPT_INJECTION_PATTERNS`. -/
def promptInjectionPatterns : List Pattern :=
  [sequence [word "ignore", spaces, optional (seq (word "all") spaces), word "previous"],
    sequence [word "system", spaces, word "prompt"],
    sequence [word "developer", spaces, word "message"],
    sequence [word "reveal", spaces, anyText,
      choice [word "secret", word "token", word "password"]],
    sequence [word "忽略", shortGap, choice [word "之前", word "以上", word "系统"], shortGap,
      choice [word "指令", word "规则"]],
    sequence [word "泄露", shortGap, choice [word "密钥", word "口令", word "系统提示"]]]

def containsPromptInjection (value : String) : Bool :=
  promptInjectionPatterns.any fun pattern => pattern.occursIn value

/-- The names of credentials, with the group around them: the first part of `_SECRET_VALUE`. -/
def secretName (host : Host) : Pattern :=
  let separator := optional (one fun c => c == '_' || c == ' ' || c == '-')
  seq (boundary fun c => host.isAlnum c || c == '_') <|
    choice [word "password", word "passwd", sequence [word "api", separator, word "key"],
      sequence [word "access", separator, word "token"], word "authorization",
      sequence [word "private", separator, word "key"]]

/-- The second part of `_SECRET_VALUE`. -/
def secretValue : Pattern :=
  sequence [many isSpace 0 none, one fun c => c == ':' || c == '=', many isSpace 0 none,
    many (fun c => !isSpace c && c != ',' && c != ';') 1 none]

def redactSecretLikeText (host : Host) (value : String) : String :=
  sub (secretName host) secretValue (fun name => name ++ "=[REDACTED]".toList) value

/-- A text with neither colon nor equals sign holds no credential. -/
theorem redactSecretLikeText_eq_self {host : Host} {value : String}
    (h : ∀ c ∈ value.toList, c ≠ ':' ∧ c ≠ '=') : redactSecretLikeText host value = value := by
  refine sub_eq_self fun place hplace => ends_seq_one_eq_nil fun c hc => ?_
  obtain ⟨hcolon, hequals⟩ := h c (hplace.subset hc)
  simp [hcolon, hequals]

def secretKeys : List String :=
  ["password", "passwd", "api_key", "apikey", "access_token", "authorization", "private_key"]

mutual

/-- Whether `reject_secret_arguments` lets a value pass. -/
def freeOfSecrets (host : Host) : Json → Bool
  | .dict entries => freeOfSecretsEntries host entries
  | .list items => freeOfSecretsItems host items
  | .str value => redactSecretLikeText host value == value
  | _ => true

def freeOfSecretsItems (host : Host) : List Json → Bool
  | [] => true
  | item :: items => freeOfSecrets host item && freeOfSecretsItems host items

def freeOfSecretsEntries (host : Host) : List (String × Json) → Bool
  | [] => true
  | (key, value) :: entries =>
    !secretKeys.contains (host.lower (strip key)) && freeOfSecrets host value &&
      freeOfSecretsEntries host entries

end

end Agent
end RagflowAgent
