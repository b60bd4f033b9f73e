import Mathlib.Data.List.Basic
import Mathlib.Algebra.Ring.Nat
import Mathlib.Tactic.SplitIfs

namespace Zkie.JsonText

section Printer

def quote : UInt8 := 0x22

def backslash : UInt8 := 0x5C

def comma : UInt8 := 0x2C

def colon : UInt8 := 0x3A

/-- A lower-case hexadecimal digit. -/
def hexDigit (n : UInt8) : UInt8 := if n < 10 then 0x30 + n else 0x57 + n

/-- A byte of a text behind the escapes that JSON asks for. -/
def escapeByte (b : UInt8) : List UInt8 :=
  if b = quote ∨ b = backslash then [backslash, b]
  else if b = 0x08 then [backslash, 0x62]
  else if b = 0x09 then [backslash, 0x74]
  else if b = 0x0A then [backslash, 0x6E]
  else if b = 0x0C then [backslash, 0x66]
  else if b = 0x0D then [backslash, 0x72]
  else if b < 0x20 then [backslash, 0x75, 0x30, 0x30, hexDigit (b / 16), hexDigit (b % 16)]
  else [b]

def escape (text : List UInt8) : List UInt8 := text.flatMap escapeByte

/-- A text in UTF-8 as a JSON string. -/
def string (text : List UInt8) : List UInt8 := quote :: escape text ++ [quote]

def number (n : ℕ) : List UInt8 := (Nat.toDigits 10 n).map fun c => UInt8.ofNat c.toNat

/-- The parts with commas between them, and no blanks. -/
def separated : List (List UInt8) → List UInt8
  | [] => []
  | [part] => part
  | part :: next :: parts => part ++ comma :: separated (next :: parts)

def array (elements : List (List UInt8)) : List UInt8 := 0x5B :: separated elements ++ [0x5D]

/-- A key and its value. -/
def field (entry : List UInt8 × List UInt8) : List UInt8 := string entry.1 ++ colon :: entry.2

def object (fields : List (List UInt8 × List UInt8)) : List UInt8 := 0x7B :: separated (fields.map field) ++ [0x7D]

end Printer

section Length

theorem escapeByte_length_le (b : UInt8) : (escapeByte b).length ≤ 6 := by
  unfold escapeByte
  split_ifs <;> simp only [List.length_cons, List.length_nil] <;> omega

theorem escape_length_le (text : List UInt8) : (escape text).length ≤ 6 * text.length := by
  induction text with
  | nil => exact Nat.le_refl 0
  | cons b text ih =>
      have hb := escapeByte_length_le b
      rw [escape, List.flatMap_cons, List.length_append, List.length_cons]
      rw [escape] at ih
      omega

theorem string_length (text : List UInt8) : (string text).length = (escape text).length + 2 := by
  rw [string, List.length_append, List.length_cons, List.length_singleton]

theorem string_length_le (text : List UInt8) : (string text).length ≤ 6 * text.length + 2 := by
  rw [string_length]
  exact Nat.add_le_add_right (escape_length_le text) 2

theorem number_length_le {n width : ℕ} (hpos : 0 < width) (h : n < 10 ^ width) : (number n).length ≤ width := by
  rw [number, List.length_map]
  exact (Nat.length_toDigits_le_iff (by omega) hpos).mpr h

/-- What every part adds with the comma behind it. -/
def totalLength (parts : List (List UInt8)) : ℕ := (parts.map fun part => part.length + 1).sum

theorem totalLength_nil : totalLength [] = 0 := rfl

theorem totalLength_cons (part : List UInt8) (parts : List (List UInt8)) :
    totalLength (part :: parts) = part.length + 1 + totalLength parts := by
  rw [totalLength, List.map_cons, List.sum_cons, totalLength]

theorem totalLength_le {parts : List (List UInt8)} {width : ℕ} (h : ∀ part ∈ parts, part.length ≤ width) :
    totalLength parts ≤ parts.length * (width + 1) := by
  induction parts with
  | nil => exact Nat.zero_le _
  | cons part parts ih =>
      have hpart := h part List.mem_cons_self
      have hparts := ih fun other hother => h other (List.mem_cons_of_mem part hother)
      rw [totalLength_cons, List.length_cons, Nat.succ_mul]
      omega

theorem separated_length_le (parts : List (List UInt8)) : (separated parts).length ≤ totalLength parts := by
  induction parts with
  | nil => exact Nat.zero_le _
  | cons part parts ih =>
      rw [totalLength_cons]
      cases parts with
      | nil => rw [separated]; omega
      | cons next parts => rw [separated, List.length_append, List.length_cons]; omega

theorem array_length_le (elements : List (List UInt8)) : (array elements).length ≤ totalLength elements + 2 := by
  have h := separated_length_le elements
  rw [array, List.length_append, List.length_cons, List.length_singleton]
  omega

theorem field_length (key value : List UInt8) : (field (key, value)).length = (string key).length + 1 + value.length := by
  rw [field, List.length_append, List.length_cons, Nat.add_assoc, Nat.add_comm 1]

theorem object_length_le (fields : List (List UInt8 × List UInt8)) :
    (object fields).length ≤ totalLength (fields.map field) + 2 := by
  have h := separated_length_le (fields.map field)
  rw [object, List.length_append, List.length_cons, List.length_singleton]
  omega

end Length

end Zkie.JsonText
