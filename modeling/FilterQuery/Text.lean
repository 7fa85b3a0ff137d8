/-
Text as the library sees it: the list of its characters. Every pass over
a query, a field id or an emitted predicate is then a recursion on data,
and every law about it an induction.

Three notions are shared by all layers. White space is what has the
Unicode property White_Space; trimming takes it from both ends, and a
text of nothing else is blank. Letter case is folded for the ASCII
letters only, so that no key word is matched by a letter outside ASCII.
Offsets count the bytes of the UTF-8 form, which is what an editor or a
log can point at.
-/

namespace FilterQuery

/-- A text, as the list of its characters. -/
abbrev Text := List Char

/-- The characters with the Unicode property White_Space. -/
def isWhiteSpace (c : Char) : Bool :=
  let n := c.toNat
  (9 ≤ n && n ≤ 13) || n == 0x20 || n == 0x85 || n == 0xA0 || n == 0x1680
    || (0x2000 ≤ n && n ≤ 0x200A) || n == 0x2028 || n == 0x2029
    || n == 0x202F || n == 0x205F || n == 0x3000

/-- The value of a hexadecimal digit. -/
def hexDigit? (c : Char) : Option Nat :=
  if c.isDigit then some (c.toNat - '0'.toNat)
  else if 'a' ≤ c ∧ c ≤ 'f' then some (c.toNat - 'a'.toNat + 10)
  else if 'A' ≤ c ∧ c ≤ 'F' then some (c.toNat - 'A'.toNat + 10)
  else none

namespace Text

/-- The text without the white space at its start. -/
def trimStart (t : Text) : Text := t.dropWhile isWhiteSpace

/-- The text without the white space at its end. -/
def trimEnd : Text → Text
  | [] => []
  | c :: t =>
      match trimEnd t with
      | [] => if isWhiteSpace c then [] else [c]
      | d :: u => c :: d :: u

/-- The text without the white space at either end. -/
def trim (t : Text) : Text := trimEnd (trimStart t)

/-- Nothing but white space. -/
def isBlank (t : Text) : Bool := t.all isWhiteSpace

/-- ASCII letters in lower case, all else as it is. -/
def lower (t : Text) : Text := t.map Char.toLower

/-- ASCII letters in upper case, all else as it is. -/
def upper (t : Text) : Text := t.map Char.toUpper

/-- The number of bytes of the text in UTF-8. -/
def byteSize : Text → Nat
  | [] => 0
  | c :: t => c.utf8Size + byteSize t

/-- The text without a leading `c`, if there is one. -/
def dropLeading (c : Char) : Text → Text
  | [] => []
  | d :: t => if d = c then t else d :: t

/-- The text without a final `c`, if there is one. -/
def dropTrailing (c : Char) : Text → Text
  | [] => []
  | [d] => if d = c then [] else [d]
  | d :: e :: t => d :: dropTrailing c (e :: t)

/-- The texts in order, with `separator` between neighbours. -/
def join (separator : Text) : List Text → Text
  | [] => []
  | t :: ts => t ++ ts.flatMap (separator ++ ·)

/-- Digits only, and at least one. The digits are the ten ASCII ones. -/
def isDigits (t : Text) : Bool := !t.isEmpty && t.all Char.isDigit

/-- A number in decimal digits. -/
def ofNat (n : Nat) : Text := Nat.toDigits 10 n

-- ============================================================== sizes

@[simp] theorem byteSize_nil : byteSize [] = 0 := rfl

@[simp] theorem byteSize_cons (c : Char) (t : Text) :
    byteSize (c :: t) = c.utf8Size + byteSize t := rfl

@[simp] theorem byteSize_append (s t : Text) :
    byteSize (s ++ t) = byteSize s + byteSize t := by
  induction s with
  | nil => simp
  | cons c s ih => simp [ih, Nat.add_assoc]

-- =============================================== one character at an end

/-- A final character is taken off once. -/
theorem dropTrailing_append_singleton (c : Char) (t : Text) :
    dropTrailing c (t ++ [c]) = t := by
  induction t with
  | nil => simp [dropTrailing]
  | cons d t ih =>
      cases t with
      | nil => simp [dropTrailing]
      | cons e t => simpa [dropTrailing] using ih

/-- Another final character stays. -/
theorem dropTrailing_of_getLast?_ne {c : Char} {t : Text}
    (h : t.getLast? ≠ some c) : dropTrailing c t = t := by
  induction t with
  | nil => rfl
  | cons d t ih =>
      cases t with
      | nil =>
          have hd : d ≠ c := by simpa using h
          simp [dropTrailing, hd]
      | cons e t =>
          have := ih (by simpa [List.getLast?_cons_cons] using h)
          simp [dropTrailing, this]

theorem dropTrailing_of_not_mem {c : Char} {t : Text} (h : c ∉ t) :
    dropTrailing c t = t :=
  dropTrailing_of_getLast?_ne fun hlast => h (List.mem_of_getLast? hlast)

theorem dropTrailing_prefix (c : Char) (t : Text) :
    dropTrailing c t <+: t := by
  by_cases h : t.getLast? = some c
  · obtain ⟨u, rfl⟩ := List.getLast?_eq_some_iff.1 h
    rw [dropTrailing_append_singleton]
    exact List.prefix_append u [c]
  · exact ⟨[], by rw [dropTrailing_of_getLast?_ne h, List.append_nil]⟩

theorem length_dropTrailing_le (c : Char) (t : Text) :
    (dropTrailing c t).length ≤ t.length := by
  have hstart := dropTrailing_prefix c t
  exact hstart.length_le

theorem dropLeading_suffix (c : Char) (t : Text) : dropLeading c t <:+ t := by
  cases t with
  | nil => exact List.suffix_rfl
  | cons d t =>
      rw [dropLeading]
      split
      · exact List.suffix_cons d t
      · exact List.suffix_rfl

-- ============================================================= digits

theorem isDigits_iff {t : Text} :
    t.isDigits = true ↔ t ≠ [] ∧ ∀ c ∈ t, c.isDigit = true := by
  simp [isDigits]

/-- Digits before something that is no digit are what `takeWhile` finds. -/
theorem takeWhile_digits {ds rest : Text}
    (hds : ∀ d ∈ ds, d.isDigit = true)
    (hrest : ∀ c t, rest = c :: t → c.isDigit = false) :
    (ds ++ rest).takeWhile Char.isDigit = ds
      ∧ (ds ++ rest).dropWhile Char.isDigit = rest := by
  have hstop : rest.takeWhile Char.isDigit = []
      ∧ rest.dropWhile Char.isDigit = rest := by
    cases rest with
    | nil => exact ⟨rfl, rfl⟩
    | cons c t => simp [hrest c t rfl]
  rw [List.takeWhile_append_of_pos hds, List.dropWhile_append_of_pos hds,
    hstop.1, hstop.2, List.append_nil]
  exact ⟨rfl, rfl⟩

-- ============================================================ numbers

theorem isDigit_of_mem_ofNat {n : Nat} : ∀ d ∈ ofNat n, d.isDigit = true :=
  fun _ hd => Nat.isDigit_of_mem_toDigits (by omega) (by omega) hd

theorem isDigits_ofNat (n : Nat) : (ofNat n).isDigits = true :=
  isDigits_iff.2 ⟨Nat.toDigits_ne_nil, isDigit_of_mem_ofNat⟩

/-- Nothing but digits is in the spelling of a number. -/
theorem not_mem_ofNat {c : Char} (h : c.isDigit = false) (n : Nat) :
    c ∉ ofNat n := by
  intro hc
  rw [isDigit_of_mem_ofNat c hc] at h
  cases h

/-- A number is read back from its digits. -/
theorem ofDigitChars_ofNat (n : Nat) : Nat.ofDigitChars 10 (ofNat n) 0 = n :=
  Nat.ofDigitChars_toDigits (by omega) (by omega)

-- =========================================================== trimming

theorem trimEnd_cons {c : Char} (h : isWhiteSpace c = false) (t : Text) :
    trimEnd (c :: t) = c :: trimEnd t := by
  rw [trimEnd]
  cases trimEnd t with
  | nil => simp [h]
  | cons d u => rfl

/-- Behind the last character that is no white space there is nothing to
trim. -/
theorem trimEnd_concat {c : Char} (h : isWhiteSpace c = false) (t : Text) :
    trimEnd (t ++ [c]) = t ++ [c] := by
  induction t with
  | nil => simp [trimEnd, h]
  | cons d t ih =>
      rw [List.cons_append, trimEnd, ih]
      cases t <;> rfl

/-- Trimming adds nothing. -/
theorem mem_of_mem_trimEnd {c : Char} {t : Text} (h : c ∈ trimEnd t) :
    c ∈ t := by
  induction t with
  | nil => exact h
  | cons d t ih =>
      rw [trimEnd] at h
      cases htrim : trimEnd t with
      | nil =>
          cases hd : isWhiteSpace d with
          | true => simp [htrim, hd] at h
          | false =>
              obtain rfl : c = d := by simpa [htrim, hd] using h
              exact List.mem_cons_self ..
      | cons e u =>
          rw [htrim] at h ih
          rcases List.mem_cons.1 h with rfl | h
          · exact List.mem_cons_self ..
          · exact List.mem_cons_of_mem d (ih h)

/-- Once is enough. -/
theorem trimEnd_trimEnd (t : Text) : trimEnd (trimEnd t) = trimEnd t := by
  induction t with
  | nil => rfl
  | cons c t ih =>
      rw [trimEnd]
      cases htrim : trimEnd t with
      | nil => cases h : isWhiteSpace c <;> simp [trimEnd, h]
      | cons d u =>
          rw [htrim] at ih
          show trimEnd (c :: d :: u) = c :: d :: u
          rw [trimEnd, ih]

/-- White space at the end is no more than trimming would take. -/
theorem trim_trimEnd (t : Text) : (trimEnd t).trim = t.trim := by
  unfold trim trimStart
  induction t with
  | nil => rfl
  | cons c t ih =>
      cases h : isWhiteSpace c with
      | false =>
          rw [trimEnd_cons h, List.dropWhile_cons_of_neg (by simp [h]),
            List.dropWhile_cons_of_neg (by simp [h]), ← trimEnd_cons h,
            trimEnd_trimEnd]
      | true =>
          rw [List.dropWhile_cons_of_pos h, ← ih, trimEnd]
          cases trimEnd t with
          | nil => simp [h]
          | cons d u =>
              exact congrArg trimEnd (List.dropWhile_cons_of_pos h)

/-- Where there is no white space there is nothing to trim. -/
theorem trim_eq_self {t : Text} (h : ∀ c ∈ t, isWhiteSpace c = false) :
    trim t = t := by
  have hend : trimEnd t = t := by
    induction t with
    | nil => rfl
    | cons c t ih =>
        obtain ⟨hc, ht⟩ := List.forall_mem_cons.1 h
        rw [trimEnd_cons hc, ih ht]
  have hstart : trimStart t = t := by
    cases t with
    | nil => rfl
    | cons c t =>
        obtain ⟨hc, -⟩ := List.forall_mem_cons.1 h
        exact List.dropWhile_cons_of_neg (by simp [hc])
  rw [trim, hstart, hend]

end Text
end FilterQuery
