import Mathlib

namespace Zkie.LineText

/-- A string as the list of its characters. -/
abbrev Text : Type := List Char

section Split

/-- The parts before and after the first occurrence of a character. -/
def splitOnce (c : Char) : Text → Option (Text × Text)
  | [] => none
  | d :: t => if d = c then some ([], t) else (splitOnce c t).map fun p => (d :: p.1, p.2)

theorem splitOnce_eq_some {c : Char} {t k v : Text} : splitOnce c t = some (k, v) ↔ t = k ++ c :: v ∧ c ∉ k := by
  induction t generalizing k with
  | nil => simp [splitOnce]
  | cons d t ih =>
      by_cases hd : d = c
      · subst hd
        rw [splitOnce, if_pos rfl]
        constructor
        · intro h
          cases h
          exact ⟨rfl, List.not_mem_nil⟩
        · rintro ⟨heq, hk⟩
          cases k with
          | nil => cases heq; rfl
          | cons e k =>
              cases heq
              exact absurd (List.mem_cons_self ..) hk
      · rw [splitOnce, if_neg hd]
        constructor
        · intro h
          obtain ⟨⟨k', v'⟩, hsplit, heq⟩ := Option.map_eq_some_iff.mp h
          cases heq
          obtain ⟨rfl, hk⟩ := ih.mp hsplit
          refine ⟨rfl, ?_⟩
          intro hmem
          rcases List.mem_cons.mp hmem with hc | hmem
          · exact hd hc.symm
          · exact hk hmem
        · rintro ⟨heq, hk⟩
          cases k with
          | nil =>
              cases heq
              exact absurd rfl hd
          | cons e k =>
              cases heq
              rw [ih.mpr ⟨rfl, fun hmem => hk (List.mem_cons_of_mem _ hmem)⟩]
              rfl

end Split

section Trim

/-- The characters of Unicode's `White_Space`. -/
def isWhitespace (c : Char) : Bool :=
  let n := c.toNat
  (9 ≤ n ∧ n ≤ 13) ∨ n = 32 ∨ n = 0x85 ∨ n = 0xa0 ∨ n = 0x1680 ∨ (0x2000 ≤ n ∧ n ≤ 0x200a) ∨ n = 0x2028 ∨ n = 0x2029 ∨
    n = 0x202f ∨ n = 0x205f ∨ n = 0x3000

def trimEnd (t : Text) : Text := t.rdropWhile isWhitespace

/-- No whitespace stands at the end. -/
def Trimmed (t : Text) : Prop := ∀ c ∈ t.getLast?, ¬isWhitespace c

instance (t : Text) : Decidable (Trimmed t) := inferInstanceAs (Decidable (∀ c ∈ t.getLast?, ¬isWhitespace c))

theorem trimEnd_eq_self {t : Text} : trimEnd t = t ↔ Trimmed t := by
  rw [trimEnd, List.rdropWhile_eq_self_iff]
  constructor
  · intro h c hc
    obtain ⟨hne, rfl⟩ := List.mem_getLast?_eq_getLast hc
    exact h hne
  · intro h hne
    exact h _ (List.getLast_mem_getLast? hne)

theorem trimmed_trimEnd (t : Text) : Trimmed (trimEnd t) := by
  intro c hc
  obtain ⟨hne, rfl⟩ := List.mem_getLast?_eq_getLast hc
  exact List.rdropWhile_last_not isWhitespace t hne

theorem trimmed_of_forall {t : Text} (h : ∀ c ∈ t, ¬isWhitespace c) : Trimmed t := fun c hc => h c (List.mem_of_mem_getLast? hc)

theorem Trimmed.append_right {s t : Text} (h : Trimmed (s ++ t)) : Trimmed t := by
  intro c hc
  apply h c
  cases t with
  | nil => cases hc
  | cons d t => rwa [List.getLast?_append_cons]

theorem mem_of_mem_trimEnd {t : Text} {c : Char} (h : c ∈ trimEnd t) : c ∈ t :=
  (List.rdropWhile_prefix isWhitespace t).subset h

end Trim

section Lines

/-- A line ended by a line feed loses the carriage return before it. -/
def stripReturn : Text → Text
  | '\r' :: reversed => reversed.reverse
  | reversed => reversed.reverse

/-- The lines of a text, behind the characters read of the current one, last first. -/
def linesFrom (reversed : Text) : Text → List Text
  | [] => if reversed = [] then [] else [reversed.reverse]
  | c :: t => if c = '\n' then stripReturn reversed :: linesFrom [] t else linesFrom (c :: reversed) t

def lines (t : Text) : List Text := linesFrom [] t

/-- Each line followed by a line feed. -/
def unlines (ls : List Text) : Text := ls.flatMap fun l => l ++ ['\n']

/-- A text that is read back as one line. -/
def IsLine (l : Text) : Prop := '\n' ∉ l ∧ l.getLast? ≠ some '\r'

theorem stripReturn_reverse {l : Text} (h : l.getLast? ≠ some '\r') : stripReturn l.reverse = l := by
  unfold stripReturn
  split
  · rename_i reversed heq
    have hl : l = reversed.reverse ++ ['\r'] := by
      rw [← List.reverse_reverse l, heq, List.reverse_cons]
    exact absurd (by rw [hl]; simp) h
  · exact List.reverse_reverse l

theorem mem_stripReturn {reversed : Text} {c : Char} (h : c ∈ stripReturn reversed) : c ∈ reversed := by
  unfold stripReturn at h
  split at h
  · exact List.mem_cons_of_mem _ (List.mem_reverse.mp h)
  · exact List.mem_reverse.mp h

theorem linesFrom_append {l : Text} (h : '\n' ∉ l) (reversed t : Text) :
    linesFrom reversed (l ++ '\n' :: t) = stripReturn (l.reverse ++ reversed) :: lines t := by
  induction l generalizing reversed with
  | nil => rfl
  | cons c l ih =>
      have hc : c ≠ '\n' := by
        rintro rfl
        exact h (List.mem_cons_self ..)
      rw [List.cons_append, linesFrom, if_neg hc, ih (fun hmem => h (List.mem_cons_of_mem _ hmem)), List.reverse_cons,
        List.append_assoc, List.singleton_append]

theorem lines_unlines {ls : List Text} (h : ∀ l ∈ ls, IsLine l) : lines (unlines ls) = ls := by
  induction ls with
  | nil => rfl
  | cons l ls ih =>
      obtain ⟨⟨hfeed, hreturn⟩, hrest⟩ := List.forall_mem_cons.mp h
      have hcons : unlines (l :: ls) = l ++ '\n' :: unlines ls := by simp [unlines]
      rw [hcons, lines, linesFrom_append hfeed, List.append_nil, stripReturn_reverse hreturn, ih hrest]

theorem notMem_linesFrom {t reversed : Text} (h : '\n' ∉ reversed) : ∀ l ∈ linesFrom reversed t, '\n' ∉ l := by
  induction t generalizing reversed with
  | nil =>
      intro l hl
      unfold linesFrom at hl
      split at hl
      · cases hl
      · rw [List.mem_singleton.mp hl, List.mem_reverse]
        exact h
  | cons c t ih =>
      intro l hl
      unfold linesFrom at hl
      split at hl
      · rcases List.mem_cons.mp hl with rfl | hl
        · exact fun hmem => h (mem_stripReturn hmem)
        · exact ih List.not_mem_nil l hl
      · rename_i hc
        apply ih _ l hl
        intro hmem
        rcases List.mem_cons.mp hmem with hc' | hmem
        · exact hc hc'.symm
        · exact h hmem

theorem notMem_lines {t l : Text} (h : l ∈ lines t) : '\n' ∉ l := notMem_linesFrom List.not_mem_nil l h

end Lines

section Numbers

def decimal (n : ℕ) : Text := Nat.toDigits 10 n

def parseDigits (size : ℕ) (t : Text) : Option ℕ :=
  if t ≠ [] ∧ (∀ c ∈ t, c.isDigit) ∧ Nat.ofDigitChars 10 t 0 < size then some (Nat.ofDigitChars 10 t 0) else none

/-- The parser of an unsigned number below `size`, which takes a plus sign and leading zeros. -/
def parseUnsigned (size : ℕ) : Text → Option ℕ
  | '+' :: t => parseDigits size t
  | t => parseDigits size t

theorem parseUnsigned_decimal {size n : ℕ} (h : n < size) : parseUnsigned size (decimal n) = some n := by
  have hdigits : ∀ c ∈ decimal n, c.isDigit := fun c hc => Nat.isDigit_of_mem_toDigits (by decide) (by decide) hc
  have hparse : parseDigits size (decimal n) = some n := by
    unfold parseDigits
    rw [decimal, Nat.ofDigitChars_ten_toDigits]
    exact if_pos ⟨Nat.toDigits_ne_nil, hdigits, h⟩
  unfold parseUnsigned
  split
  · rename_i t heq
    have := hdigits '+' (by rw [heq]; exact List.mem_cons_self ..)
    exact absurd this (by decide)
  · exact hparse

/-- The digits of a number are read as that number only. -/
theorem parseUnsigned_decimal_inj {size m n : ℕ} (h : parseUnsigned size (decimal n) = some m) : m = n := by
  by_cases hlt : n < size
  · rw [parseUnsigned_decimal hlt] at h
    exact (Option.some.inj h).symm
  · have hnone : ∀ t, parseDigits size t = some m → Nat.ofDigitChars 10 t 0 = m ∧ m < size := by
      intro t ht
      unfold parseDigits at ht
      split at ht
      · rename_i hc
        cases ht
        exact ⟨rfl, hc.2.2⟩
      · cases ht
    unfold parseUnsigned at h
    split at h
    · rename_i t heq
      have hplus : '+' ∈ decimal n := by rw [heq]; exact List.mem_cons_self ..
      exact absurd (Nat.isDigit_of_mem_toDigits (by decide) (by decide) hplus) (by decide)
    · obtain ⟨heq, -⟩ := hnone _ h
      rw [decimal, Nat.ofDigitChars_ten_toDigits] at heq
      exact heq.symm

theorem decimal_plain {n : ℕ} : ∀ c ∈ decimal n, ¬isWhitespace c := by
  intro c hc hspace
  have hdigit : c.isDigit := Nat.isDigit_of_mem_toDigits (by decide) (by decide) hc
  rw [Char.isDigit, Bool.and_eq_true, decide_eq_true_eq, decide_eq_true_eq] at hdigit
  have hlow : 48 ≤ c.toNat := hdigit.1
  have hhigh : c.toNat ≤ 57 := hdigit.2
  simp only [isWhitespace, decide_eq_true_eq] at hspace
  omega

theorem parseUnsigned_lt {size n : ℕ} {t : Text} (h : parseUnsigned size t = some n) : n < size := by
  have hdigits : ∀ t, parseDigits size t = some n → n < size := by
    intro t h
    unfold parseDigits at h
    split at h
    · rename_i hc
      cases h
      exact hc.2.2
    · cases h
  unfold parseUnsigned at h
  split at h
  · exact hdigits _ h
  · exact hdigits _ h

end Numbers

section Hex

def hexNibble (c : Char) : Option ℕ :=
  if '0' ≤ c ∧ c ≤ '9' then some (c.toNat - 48) else if 'a' ≤ c ∧ c ≤ 'f' then some (c.toNat - 97 + 10) else none

def hexByte (b : UInt8) : Text := [Nat.digitChar (b.toNat / 16), Nat.digitChar (b.toNat % 16)]

def parseHex : Text → Option (List UInt8)
  | [] => some []
  | [_] => none
  | a :: b :: t => do
    let high ← hexNibble a
    let low ← hexNibble b
    let bytes ← parseHex t
    return UInt8.ofNat (16 * high + low) :: bytes

theorem hexNibble_digitChar {n : ℕ} (h : n < 16) : hexNibble (Nat.digitChar n) = some n := by
  revert n
  decide

theorem hexNibble_eq_some {c : Char} {n : ℕ} (h : hexNibble c = some n) : n < 16 ∧ Nat.digitChar n = c := by
  have hc : Char.ofNat c.toNat = c := Char.ofNat_toNat c
  unfold hexNibble at h
  split at h
  · rename_i hrange
    have hlow : 48 ≤ c.toNat := hrange.1
    have hhigh : c.toNat ≤ 57 := hrange.2
    cases h
    rw [← hc]
    generalize c.toNat = m at hlow hhigh
    interval_cases m <;> decide
  · split at h
    · rename_i hrange
      have hlow : 97 ≤ c.toNat := hrange.1
      have hhigh : c.toNat ≤ 102 := hrange.2
      cases h
      rw [← hc]
      generalize c.toNat = m at hlow hhigh
      interval_cases m <;> decide
    · cases h

theorem parseHex_hexByte (bytes : List UInt8) : parseHex (bytes.flatMap hexByte) = some bytes := by
  induction bytes with
  | nil => rfl
  | cons b bytes ih =>
      have hb := b.toNat_lt
      have hbyte : UInt8.ofNat (16 * (b.toNat / 16) + b.toNat % 16) = b := by
        rw [Nat.div_add_mod, UInt8.ofNat_toNat]
      simp only [List.flatMap_cons, hexByte, List.cons_append, List.nil_append, parseHex,
        hexNibble_digitChar (show b.toNat / 16 < 16 by omega), hexNibble_digitChar (show b.toNat % 16 < 16 by omega)]
      simp only [ih, Option.bind_eq_bind, Option.bind_some, Option.pure_def, hbyte]

theorem parseHex_eq_some {t : Text} {bytes : List UInt8} (h : parseHex t = some bytes) : bytes.flatMap hexByte = t := by
  induction t using parseHex.induct generalizing bytes with
  | case1 =>
      cases h
      rfl
  | case2 a => cases h
  | case3 a b t ih =>
      simp only [parseHex, Option.bind_eq_bind, Option.bind_eq_some_iff, Option.pure_def, Option.some.injEq] at h
      obtain ⟨high, hhigh, low, hlow, rest, hrest, rfl⟩ := h
      obtain ⟨hlt, rfl⟩ := hexNibble_eq_some hhigh
      obtain ⟨hlt', rfl⟩ := hexNibble_eq_some hlow
      have hbyte : (UInt8.ofNat (16 * high + low)).toNat = 16 * high + low := by
        rw [UInt8.toNat_ofNat']
        omega
      have hdiv : (16 * high + low) / 16 = high := by omega
      have hmod : (16 * high + low) % 16 = low := by omega
      rw [List.flatMap_cons, ih hrest, hexByte, hbyte, hdiv, hmod]
      rfl

theorem hexByte_plain {b : UInt8} : ∀ c ∈ hexByte b, ¬isWhitespace c := by
  have hplain : ∀ n < 16, ¬isWhitespace (Nat.digitChar n) := by decide
  have hb := b.toNat_lt
  simp only [hexByte, List.forall_mem_cons]
  exact ⟨hplain _ (by omega), hplain _ (by omega), fun _ h => absurd h List.not_mem_nil⟩

end Hex

section Read

variable {ε β : Type} {f : β → Text → Except ε β} {I : β → Prop} {P : Text → Prop}

/-- The rule of a reader that goes line by line. -/
theorem readLines_invariant (h : ∀ b l b', I b → P l → f b l = .ok b' → I b') {ls : List Text} (hls : ∀ l ∈ ls, P l)
    {b b' : β} (hb : I b) (hrun : ls.foldlM f b = .ok b') : I b' := by
  induction ls generalizing b with
  | nil =>
      cases hrun
      exact hb
  | cons l ls ih =>
      obtain ⟨hl, hls⟩ := List.forall_mem_cons.mp hls
      simp only [List.foldlM_cons, bind, Except.bind] at hrun
      split at hrun
      · cases hrun
      · rename_i mid hmid
        exact ih hls (h b l mid hb hl hmid) hrun

end Read

end Zkie.LineText
