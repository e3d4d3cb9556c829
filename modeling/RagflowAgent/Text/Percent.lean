import Mathlib.Data.List.Basic
import Mathlib.Data.Nat.Notation

/-!
# Quoted texts

`quote` is `urllib.parse.quote(text, safe="")`: the bytes of the text in UTF-8, of which the
unreserved ones stay and the others become a percent sign with two digits.

* `unquoteBytes_quoteBytes`: the bytes are read back;
* `quote_injective`: different texts are quoted differently;
* `unreserved_of_mem_quoteBytes`: only unreserved characters, percent signs and digits are left.
-/

namespace RagflowAgent
namespace Text

/-! ## Digits -/

/-- A digit of `"%02X"`. -/
def upperHexDigit (n : ℕ) : Char := "0123456789ABCDEF".toList.getD n '0'

def upperHexValue (c : Char) : Option ℕ :=
  if '0' ≤ c ∧ c ≤ '9' then some (c.toNat - 48)
  else if 'A' ≤ c ∧ c ≤ 'F' then some (c.toNat - 55)
  else none

theorem upperHexValue_upperHexDigit {n : ℕ} (h : n < 16) :
    upperHexValue (upperHexDigit n) = some n := by
  have hall : ∀ n < 16, upperHexValue (upperHexDigit n) = some n := by decide
  exact hall n h

/-! ## Bytes -/

/-- The characters that are never quoted. -/
def isUnreserved (c : Char) : Bool := c.isAlphanum || c == '_' || c == '.' || c == '-' || c == '~'

/-- One byte of a quoted text. -/
def quoteByte (b : UInt8) : List Char :=
  let c := Char.ofNat b.toNat
  if isUnreserved c then [c]
  else ['%', upperHexDigit (b.toNat / 16), upperHexDigit (b.toNat % 16)]

def quoteBytes (bytes : List UInt8) : List Char := bytes.flatMap quoteByte

/-- The bytes that a quoted text was made of. -/
def unquoteBytes : List Char → Option (List UInt8)
  | [] => some []
  | '%' :: high :: low :: l => do
    let high ← upperHexValue high
    let low ← upperHexValue low
    let bytes ← unquoteBytes l
    return UInt8.ofNat (16 * high + low) :: bytes
  | c :: l => do
    let bytes ← unquoteBytes l
    return UInt8.ofNat c.toNat :: bytes

/-- The percent sign itself is quoted. -/
theorem ne_percent_of_isUnreserved {c : Char} (h : isUnreserved c = true) : c ≠ '%' := by
  rintro rfl
  revert h
  decide

theorem unquoteBytes_cons {c : Char} (hc : c ≠ '%') (l : List Char) :
    unquoteBytes (c :: l) = (unquoteBytes l).map (UInt8.ofNat c.toNat :: ·) := by
  rw [unquoteBytes]
  · cases unquoteBytes l <;> rfl
  · rintro high low l' rfl
    exact absurd rfl hc

/-- The character of a byte has the number of the byte. -/
theorem toNat_ofNat_toNat (b : UInt8) : (Char.ofNat b.toNat).toNat = b.toNat := by
  have hb := b.toNat_lt
  have hvalid : b.toNat.isValidChar := Or.inl (by omega)
  rw [Char.ofNat, dif_pos hvalid]
  rfl

/-- A quoted byte is read back. -/
theorem unquoteBytes_quoteByte (b : UInt8) (l : List Char) :
    unquoteBytes (quoteByte b ++ l) = (unquoteBytes l).map (b :: ·) := by
  unfold quoteByte
  dsimp only
  split
  · rename_i h
    rw [List.singleton_append, unquoteBytes_cons (ne_percent_of_isUnreserved h),
      toNat_ofNat_toNat, UInt8.ofNat_toNat]
  · have hb := b.toNat_lt
    have hhigh : upperHexValue (upperHexDigit (b.toNat / 16)) = some (b.toNat / 16) :=
      upperHexValue_upperHexDigit (by omega)
    have hlow : upperHexValue (upperHexDigit (b.toNat % 16)) = some (b.toNat % 16) :=
      upperHexValue_upperHexDigit (by omega)
    have hbyte : UInt8.ofNat (16 * (b.toNat / 16) + b.toNat % 16) = b := by
      rw [Nat.div_add_mod, UInt8.ofNat_toNat]
    simp only [List.cons_append, List.nil_append, unquoteBytes, hhigh, hlow]
    cases unquoteBytes l with
    | none => rfl
    | some bytes => exact congrArg some (congrArg (· :: bytes) hbyte)

/-- **Quoted bytes are read back.** -/
theorem unquoteBytes_quoteBytes (bytes : List UInt8) :
    unquoteBytes (quoteBytes bytes) = some bytes := by
  induction bytes with
  | nil => rfl
  | cons b bytes ih =>
    rw [quoteBytes, List.flatMap_cons, ← quoteBytes, unquoteBytes_quoteByte, ih, Option.map_some]

/-- What a quoted text consists of. -/
theorem unreserved_of_mem_quoteBytes {bytes : List UInt8} {c : Char}
    (h : c ∈ quoteBytes bytes) : isUnreserved c = true ∨ c = '%' := by
  obtain ⟨b, -, hc⟩ := List.mem_flatMap.1 h
  have hdigit : ∀ n < 16, isUnreserved (upperHexDigit n) = true := by decide
  have hb := b.toNat_lt
  unfold quoteByte at hc
  dsimp only at hc
  split at hc
  · rw [List.mem_singleton.1 hc]
    exact .inl ‹_›
  · simp only [List.mem_cons, List.not_mem_nil, or_false] at hc
    obtain rfl | rfl | rfl := hc
    · exact .inr rfl
    · exact .inl (hdigit _ (by omega))
    · exact .inl (hdigit _ (by omega))

/-! ## Texts -/

/-- `text.encode("utf-8")`. -/
def utf8Bytes (text : String) : List UInt8 := text.toList.flatMap String.utf8EncodeChar

/-- `quote(text, safe="")`. -/
def quote (text : String) : String := String.ofList (quoteBytes (utf8Bytes text))

theorem utf8Bytes_injective : Function.Injective utf8Bytes := by
  intro text text' h
  have hbytes : text.toByteArray = text'.toByteArray := by
    rw [← String.utf8Encode_toList, ← String.utf8Encode_toList]
    exact congrArg List.toByteArray h
  exact String.toByteArray_inj.1 hbytes

/-- **Different texts are quoted differently.** -/
theorem quote_injective : Function.Injective quote := by
  intro text text' h
  have hquoted : quoteBytes (utf8Bytes text) = quoteBytes (utf8Bytes text') :=
    String.ofList_injective h
  have hbytes := congrArg unquoteBytes hquoted
  rw [unquoteBytes_quoteBytes, unquoteBytes_quoteBytes, Option.some.injEq] at hbytes
  exact utf8Bytes_injective hbytes

/-- A reserved character does not occur in a quoted text. -/
theorem not_mem_quote {c : Char} (h : isUnreserved c = false) (hc : c ≠ '%') (text : String) :
    c ∉ (quote text).toList := by
  intro hmem
  rw [quote, String.toList_ofList] at hmem
  obtain hunreserved | hpercent := unreserved_of_mem_quoteBytes hmem
  · rw [h] at hunreserved
    cases hunreserved
  · exact hc hpercent

example : quote "a/b c:é" = "a%2Fb%20c%3A%C3%A9" := by decide

end Text
end RagflowAgent
