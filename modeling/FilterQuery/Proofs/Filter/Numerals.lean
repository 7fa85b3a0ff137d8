/-
Only numerals reach the columns of numbers. What a numeral is comes here from
its grammar, as the regular language that is built from single characters by
union, concatenation and repetition.

The matcher takes digits as long as there are any and decides by what comes
next, which is one way to cut a text up; the grammar allows any.
They agree because nothing that may follow digits starts with one
(`isUnsigned_iff_mem`). A numeral holds no white space, so a value that has
been made a numeral once stays as it is.
-/
import Mathlib.Computability.Language
import FilterQuery.Proofs.Filter.Layout
import FilterQuery.Proofs.Filter.Quoted

namespace FilterQuery

namespace Literal

open scoped Computability

-- =============================================================== the grammar

/-- One of the characters. -/
def oneOf (cs : List Char) : Language Char := {t | ∃ c ∈ cs, t = [c]}

/-- The ten ASCII digits. -/
def digit : Language Char :=
  oneOf ['0', '1', '2', '3', '4', '5', '6', '7', '8', '9']

/-- Digits, at least one. -/
def digits : Language Char := digit * digit∗

/-- The decimal point. -/
def point : Language Char := oneOf ['.']

/-- A sign, or none. -/
def sign : Language Char := 1 + oneOf ['+', '-']

/-- Digits, and a point among them or at either end, or none. -/
def mantissa : Language Char := digits * (1 + point * digit∗) + point * digits

/-- An exponent, or none. -/
def exponent : Language Char := 1 + oneOf ['e', 'E'] * (sign * digits)

/-- The texts that are numerals. -/
def numerals : Language Char := sign * (mantissa * exponent)

-- ============================================================== characters

private theorem nil_not_mem_oneOf_mul {cs : List Char} {l : Language Char} :
    [] ∉ oneOf cs * l := by
  rintro ⟨_, ⟨c, -, rfl⟩, u, -, h⟩
  cases h

private theorem cons_mem_oneOf_mul {cs : List Char} {l : Language Char}
    {c : Char} {t : Text} : c :: t ∈ oneOf cs * l ↔ c ∈ cs ∧ t ∈ l := by
  rw [Language.mem_mul]
  constructor
  · rintro ⟨_, ⟨d, hd, rfl⟩, u, hu, h⟩
    obtain ⟨rfl, rfl⟩ := List.cons.inj h
    exact ⟨hd, hu⟩
  · rintro ⟨hc, ht⟩
    exact ⟨[c], ⟨c, hc, rfl⟩, t, ht, rfl⟩

/-- A text is a row of letters just when each of its characters is one of
them. -/
private theorem mem_star_oneOf {cs : List Char} {t : Text} :
    t ∈ (oneOf cs)∗ ↔ ∀ c ∈ t, c ∈ cs := by
  rw [Language.mem_kstar]
  constructor
  · rintro ⟨parts, rfl, hparts⟩ c hc
    obtain ⟨part, hpart, hc⟩ := List.mem_flatten.1 hc
    obtain ⟨d, hd, rfl⟩ := hparts part hpart
    exact List.mem_singleton.1 hc ▸ hd
  · intro h
    refine ⟨t.map fun c => [c], ?_, fun part hpart => ?_⟩
    · rw [← List.flatMap_def, List.flatMap_singleton']
    · obtain ⟨c, hc, rfl⟩ := List.mem_map.1 hpart
      exact ⟨c, h c hc, rfl⟩

/-- The digits of the grammar are those of the matcher. -/
theorem isDigit_iff_mem {c : Char} :
    c.isDigit = true
      ↔ c ∈ ['0', '1', '2', '3', '4', '5', '6', '7', '8', '9'] := by
  constructor
  · intro h
    obtain ⟨hle, hge⟩ := Char.isDigit_iff_toNat.1 h
    have hall : ∀ n ≤ '9'.toNat, '0'.toNat ≤ n → Char.ofNat n
        ∈ ['0', '1', '2', '3', '4', '5', '6', '7', '8', '9'] := by
      decide
    rw [← Char.ofNat_toNat c]
    exact hall c.toNat hge hle
  · intro h
    have hall : ∀ d ∈ ['0', '1', '2', '3', '4', '5', '6', '7', '8', '9'],
        d.isDigit = true := by
      simp
    exact hall c h

/-- So any number of digits is a text of digits only. -/
private theorem mem_star_digit {t : Text} :
    t ∈ digit∗ ↔ ∀ c ∈ t, c.isDigit = true := by
  simp only [digit, mem_star_oneOf, isDigit_iff_mem]

-- =================================================================== parts

private theorem mem_digits {t : Text} :
    t ∈ digits ↔ t ≠ [] ∧ ∀ c ∈ t, c.isDigit = true := by
  unfold digits
  cases t with
  | nil => simp [digit, nil_not_mem_oneOf_mul]
  | cons c t =>
      rw [List.forall_mem_cons, ← mem_star_digit, isDigit_iff_mem,
        and_iff_right (List.cons_ne_nil c t)]
      exact cons_mem_oneOf_mul

private theorem isDigits_iff_mem {t : Text} :
    t.isDigits = true ↔ t ∈ digits := by
  rw [mem_digits, Text.isDigits_iff]

/-- A sign is read off what does not start with one itself. -/
theorem mem_sign_mul {l : Language Char}
    (hl : ∀ c ∈ ['+', '-'], ∀ t, c :: t ∉ l) {t : Text} :
    t ∈ sign * l ↔ dropSign t ∈ l := by
  unfold sign
  rw [add_mul, one_mul, Language.mem_add]
  unfold dropSign
  split
  · rename_i t
    rw [cons_mem_oneOf_mul]
    simp [hl '+' (by simp) t]
  · rename_i t
    rw [cons_mem_oneOf_mul]
    simp [hl '-' (by simp) t]
  · rename_i hplus hminus
    cases t with
    | nil => simp [nil_not_mem_oneOf_mul]
    | cons c t =>
        rw [cons_mem_oneOf_mul]
        have hc : c ∉ ['+', '-'] := by
          rintro hc
          rcases List.mem_pair.1 hc with rfl | rfl
          · exact hplus t rfl
          · exact hminus t rfl
        simp only [hc, false_and, or_false]

/-- The matcher of exponents accepts them, and nothing else. -/
theorem isExponent_iff_mem {t : Text} :
    isExponent t = true ↔ t ∈ exponent := by
  unfold exponent
  rw [Language.mem_add, Language.mem_one]
  cases t with
  | nil => simp [isExponent]
  | cons c t =>
      have hsign : t ∈ sign * digits ↔ (dropSign t).isDigits = true := by
        rw [mem_sign_mul, isDigits_iff_mem]
        intro c hc t
        rw [← isDigits_iff_mem]
        rcases List.mem_pair.1 hc with rfl | rfl
        · rintro h
          cases h
        · rintro h
          cases h
      rw [cons_mem_oneOf_mul, hsign]
      simp [isExponent]

/-- No exponent starts with a digit or a point. -/
theorem head_of_isExponent {c : Char} {t : Text}
    (h : isExponent (c :: t) = true) : c.isDigit = false ∧ c ≠ '.' := by
  simp only [isExponent, Bool.and_eq_true, Bool.or_eq_true, beq_iff_eq] at h
  rcases h.1 with rfl | rfl
  · decide
  · decide

/-- Digits, or a point with digits on one side of it or on both. -/
private theorem mem_mantissa {t : Text} :
    t ∈ mantissa ↔ t ∈ digits ∨ ∃ ds fs, ds ∈ digit∗ ∧ fs ∈ digit∗
      ∧ (ds ≠ [] ∨ fs ≠ []) ∧ t = ds ++ '.' :: fs := by
  unfold mantissa
  -- The digits may be missing on one side of the point, but not on both.
  rw [Language.mem_add, mul_add, mul_one, Language.mem_add, or_assoc]
  refine or_congr_right ?_
  constructor
  · rintro (⟨ds, hds, p, hp, rfl⟩ | h)
    · cases p with
      | nil => exact absurd hp nil_not_mem_oneOf_mul
      | cons c fs =>
          obtain ⟨hc, hfs⟩ := cons_mem_oneOf_mul.1 hp
          obtain rfl := List.mem_singleton.1 hc
          have hdigits := mem_digits.1 hds
          exact ⟨ds, fs, mem_star_digit.2 hdigits.2, hfs, Or.inl hdigits.1,
            rfl⟩
    · cases t with
      | nil => exact absurd h nil_not_mem_oneOf_mul
      | cons c fs =>
          obtain ⟨hc, hfs⟩ := cons_mem_oneOf_mul.1 h
          obtain rfl := List.mem_singleton.1 hc
          have hdigits := mem_digits.1 hfs
          exact ⟨[], fs, Language.nil_mem_kstar _,
            mem_star_digit.2 hdigits.2, Or.inr hdigits.1, rfl⟩
  · rintro ⟨ds, fs, hds, hfs, hne, rfl⟩
    have hpoint : ∀ l : Language Char, fs ∈ l → '.' :: fs ∈ point * l :=
      fun l h => cons_mem_oneOf_mul.2 ⟨List.mem_singleton.2 rfl, h⟩
    cases ds with
    | nil =>
        have hfs := mem_digits.2 ⟨hne.resolve_left (by simp),
          mem_star_digit.1 hfs⟩
        exact Or.inr (hpoint _ hfs)
    | cons d ds =>
        have hds := mem_digits.2 ⟨List.cons_ne_nil d ds,
          mem_star_digit.1 hds⟩
        exact Or.inl ⟨_, hds, _, hpoint _ hfs, rfl⟩

-- ================================================================ numerals

private theorem isUnsigned_whole {ds e : Text} (hds : ds ∈ digits)
    (he : isExponent e = true) : isUnsigned (ds ++ e) = true := by
  obtain ⟨hne, hall⟩ := mem_digits.1 hds
  obtain ⟨htake, hdrop⟩ := @Text.takeWhile_digits _ e hall
    fun c u hcu => (head_of_isExponent (hcu ▸ he)).1
  unfold isUnsigned
  simp only [htake, hdrop]
  split
  · exact absurd rfl (head_of_isExponent he).2
  · simp [he, hne]

private theorem isUnsigned_point {ds fs e : Text} (hds : ds ∈ digit∗)
    (hfs : fs ∈ digit∗) (hne : ds ≠ [] ∨ fs ≠ [])
    (he : isExponent e = true) :
    isUnsigned (ds ++ '.' :: (fs ++ e)) = true := by
  obtain ⟨htake, hdrop⟩ := @Text.takeWhile_digits _ ('.' :: (fs ++ e))
    (mem_star_digit.1 hds) fun c u hcu => by
      obtain ⟨rfl, -⟩ := List.cons.inj hcu
      rfl
  obtain ⟨hfraction, hpower⟩ := @Text.takeWhile_digits _ e
    (mem_star_digit.1 hfs) fun c u hcu => (head_of_isExponent (hcu ▸ he)).1
  unfold isUnsigned
  simp only [htake, hdrop, hfraction, hpower, he, Bool.and_true]
  simpa [Classical.or_iff_not_imp_left] using hne

/-- What the matcher accepts behind a sign is a mantissa with an exponent,
wherever the one ends and the other starts. -/
theorem isUnsigned_iff_mem {t : Text} :
    isUnsigned t = true ↔ t ∈ mantissa * exponent := by
  rw [Language.mem_mul]
  constructor
  · intro h
    have hstar : ∀ u : Text, u.takeWhile Char.isDigit ∈ digit∗ := fun u =>
      mem_star_digit.2 fun _ => List.mem_takeWhile_imp
    have hsplit : t.takeWhile Char.isDigit ++ t.dropWhile Char.isDigit = t :=
      List.takeWhile_append_dropWhile
    unfold isUnsigned at h
    dsimp only at h
    split at h
    · rename_i u hu
      obtain ⟨hsome, he⟩ := Bool.and_eq_true_iff.1 h
      refine ⟨_, mem_mantissa.2 (Or.inr ⟨_, _, hstar t, hstar u, ?_, rfl⟩),
        _, isExponent_iff_mem.1 he, ?_⟩
      · simpa [Classical.or_iff_not_imp_left] using hsome
      · rw [List.append_assoc, List.cons_append,
          List.takeWhile_append_dropWhile, ← hu, hsplit]
    · obtain ⟨hsome, he⟩ := Bool.and_eq_true_iff.1 h
      have hdigits := mem_digits.2
        ⟨by simpa using hsome, mem_star_digit.1 (hstar t)⟩
      exact ⟨_, mem_mantissa.2 (Or.inl hdigits), _,
        isExponent_iff_mem.1 he, hsplit⟩
  · rintro ⟨m, hm, e, he, rfl⟩
    have he := isExponent_iff_mem.2 he
    rcases mem_mantissa.1 hm with hm | ⟨ds, fs, hds, hfs, hne, rfl⟩
    · exact isUnsigned_whole hm he
    · rw [List.append_assoc, List.cons_append]
      exact isUnsigned_point hds hfs hne he

/-- The matcher accepts the numerals of the grammar, and nothing else. -/
theorem isNumeral_iff_mem {t : Text} :
    isNumeral t = true ↔ t ∈ numerals := by
  unfold numerals isNumeral
  rw [mem_sign_mul, isUnsigned_iff_mem]
  intro c hc t
  rw [← isUnsigned_iff_mem]
  rcases List.mem_pair.1 hc with rfl | rfl
  · simp [isUnsigned]
  · simp [isUnsigned]

-- ================================================================== values

/-- The characters of numerals are no white space. -/
theorem trim_numeral {t : Text} (h : t ∈ numerals) : t.trim = t := by
  have hdigits : ∀ c ∈ ['0', '1', '2', '3', '4', '5', '6', '7', '8', '9'],
      isWhiteSpace c = false := by
    simp [isWhiteSpace]
  have hsymbols : ∀ c ∈ ['+', '-', '.'], isWhiteSpace c = false := by
    simp [isWhiteSpace]
  have hchars := (Sql.numeralText_of_isNumeral (isNumeral_iff_mem.2 h)).chars
  refine Text.trim_eq_self fun c hc => ?_
  rcases hchars c hc with hletter | hsymbol
  · simp only [Sql.isNumeralLetter, Bool.or_eq_true, beq_iff_eq] at hletter
    rcases hletter with (hdigit | rfl) | rfl
    · exact hdigits c (isDigit_iff_mem.1 hdigit)
    · rfl
    · rfl
  · exact hsymbols c hsymbol

/-- A numeral is itself, white space around it aside. -/
theorem number_of_mem {v : Text} (h : v.trim ∈ numerals) :
    number v = v.trim := by
  unfold number
  exact if_pos (isNumeral_iff_mem.2 h)

/-- Whatever is no numeral is zero. -/
theorem number_of_not_mem {v : Text} (h : v.trim ∉ numerals) :
    number v = ['0'] := by
  unfold number
  exact if_neg (isNumeral_iff_mem.not.2 h)

/-- A value as a number is a numeral, whatever it is. -/
theorem number_mem_numerals (v : Text) : number v ∈ numerals := by
  by_cases h : v.trim ∈ numerals
  · rwa [number_of_mem h]
  · rw [number_of_not_mem h, ← isNumeral_iff_mem]
    decide

/-- What passes for a number stays as it is. -/
theorem number_number (v : Text) : number (number v) = number v := by
  have h := number_mem_numerals v
  have htrim := trim_numeral h
  rw [number_of_mem (htrim.symm ▸ h), htrim]

end Literal

-- ================================================================= columns

namespace Filter

open Literal

/-- A column, an operator and a value as a number. -/
def numericFragment (f : Filter) (field : Field) (op : Operator)
    (value : Text) : Text :=
  f.column field ++ ' ' :: op.spelling ++ ' ' :: number value

variable {f : Filter} {field : Field} {op : Operator}

/-- A field of numbers is compared by order or equality with a numeral. -/
theorem fieldPredicate_of_numeric
    (hty : field.type = .integer ∨ field.type = .decimal)
    (hop : (op.isOrdering || op.isEquality) = true) (value : Text) :
    f.fieldPredicate field op value
      = .ok (f.numericFragment field op value) := by
  have hadmits : field.type.admits op = true := by
    rcases hty with hty | hty <;> rw [hty] <;> revert hop <;> cases op <;>
      decide
  have hn : op.isNullCheck = false := by
    revert hop
    cases op <;> decide
  have hlike : op ≠ .like := by
    rintro rfl
    cases hop
  have hliteral : f.literal field.type value = number value := by
    rcases hty with hty | hty <;> rw [hty] <;> rfl
  rw [fieldPredicate, if_pos hadmits, comparison_eq_literal hn hlike,
    hliteral]
  rfl

theorem term_of_numeric
    (hty : field.type = .integer ∨ field.type = .decimal)
    (hop : (op.isOrdering || op.isEquality) = true) {name : Text}
    (hkey : key name ≠ ['*'])
    (hfield : f.fields.find? (key name) = some field) (raw : Text) :
    f.term name op (some raw)
      = .ok (f.numericFragment field op raw.unquote) := by
  unfold term
  rw [if_neg hkey, hfield]
  exact fieldPredicate_of_numeric hty hop raw.unquote

/-- The wildcard compares each of its fields as if it stood alone. -/
theorem exists_parts_of_numeric
    (hty : field.type = .integer ∨ field.type = .decimal)
    (hop : (op.isOrdering || op.isEquality) = true) {name raw sql : Text}
    (hkey : key name = ['*']) (hfield : field ∈ f.fields.searchable)
    (h : f.term name op (some raw) = .ok sql) :
    ∃ parts, f.numericFragment field op raw.unquote ∈ parts
      ∧ sql = '(' :: Text.join " OR ".toList parts ++ [')'] := by
  have hpart : f.comparison field op raw.unquote
      = f.numericFragment field op raw.unquote :=
    (eq_comparison_of_fieldPredicate
      (fieldPredicate_of_numeric hty hop raw.unquote)).symm
  rcases term_eq_ok_cases h with ⟨-, hnone, -⟩ | ⟨-, -, rfl⟩ | ⟨hne, -⟩
  · rw [hnone] at hfield
    cases hfield
  · exact ⟨_, List.mem_map.2 ⟨field, hfield, hpart⟩, rfl⟩
  · exact absurd hkey hne

/-- A value as a number is the value without white space around it, if that
is a numeral of the grammar, and otherwise zero; made a number again it
stays as it is. So wherever a column of whole or decimal numbers is compared
by order or equality with a value, by its name or by the wildcard, what is
emitted is the column, the operator and a numeral. -/
theorem compares_with_numerals :
    (∀ v : Text, (v.trim ∈ numerals → number v = v.trim)
        ∧ (v.trim ∉ numerals → number v = ['0'])
        ∧ number v ∈ numerals ∧ number (number v) = number v)
      ∧ ∀ (f : Filter) (field : Field) (op : Operator),
        field.type = .integer ∨ field.type = .decimal →
        (op.isOrdering || op.isEquality) = true →
        (∀ value, f.fieldPredicate field op value
            = .ok (f.column field ++ ' ' :: op.spelling
                ++ ' ' :: number value))
          ∧ ∀ name raw b fs ns,
            (key name ≠ ['*'] → f.fields.find? (key name) = some field →
              f.compileFrom ⟨.term b, fs⟩
                  (.column name :: .operator op :: .value raw :: ns)
                = f.compileFrom ⟨.bind, fs
                    ++ [⟨b, f.numericFragment field op raw.unquote⟩]⟩ ns)
            ∧ ∀ out, key name = ['*'] → field ∈ f.fields.searchable →
              f.compileFrom ⟨.term b, fs⟩
                  (.column name :: .operator op :: .value raw :: ns)
                = .ok out →
              ∃ parts, f.numericFragment field op raw.unquote ∈ parts
                ∧ f.compileFrom ⟨.bind, fs
                      ++ [⟨b, '(' :: Text.join " OR ".toList parts
                        ++ [')']⟩]⟩ ns
                  = .ok out := by
  constructor
  · intro v
    exact ⟨number_of_mem, number_of_not_mem, number_mem_numerals v,
      number_number v⟩
  intro f field op hty hop
  refine ⟨fieldPredicate_of_numeric hty hop, fun name raw b fs ns => ?_⟩
  have hcomparison : op.isComparison = true ∧ op.isNullCheck = false := by
    revert hop
    cases op <;> decide
  rw [compileFrom_value b fs ns hcomparison.1 hcomparison.2]
  constructor
  · intro hkey hfield
    rw [term_of_numeric hty hop hkey hfield]
    rfl
  · intro out hkey hfield hout
    obtain ⟨sql, hsql, hout⟩ := bind_eq_ok_iff.1 hout
    obtain ⟨parts, hpart, rfl⟩ :=
      exists_parts_of_numeric hty hop hkey hfield hsql
    exact ⟨parts, hpart, hout⟩

/-- White space around a numeral that starts with its point, and a text of
digits that are not the ASCII ones. -/
theorem compares_with_numerals_blanks :
    let age : Field := ⟨"age".toList, .integer, true⟩
    let f : Filter :=
      { fields := .ofFields [age], quoter := Dialect.ansi.quoter }
    let compare (op : Operator) (raw : Text) : Except QueryError Text :=
      f.compile [.column "age".toList, .operator op, .value raw]
    "-.5E+3".toList ∈ numerals ∧ "१२".toList ∉ numerals
      ∧ compare .ge "'\n-.5E+3 '".toList = .ok "\"age\" >= -.5E+3".toList
      ∧ compare .ne "१२".toList = .ok "\"age\" != 0".toList := by
  intro age f compare
  obtain ⟨hnumber, hcompare⟩ := compares_with_numerals
  have hmem : "-.5E+3".toList ∈ numerals := isNumeral_iff_mem.1 (by decide)
  have hnot : "१२".toList ∉ numerals := fun h =>
    absurd (isNumeral_iff_mem.2 h) (by decide)
  have hge : number "\n-.5E+3 ".toList = "-.5E+3".toList :=
    (hnumber "\n-.5E+3 ".toList).1 hmem
  have hne : number "१२".toList = ['0'] := (hnumber "१२".toList).2.1 hnot
  have hcompiled : ∀ (op : Operator) (raw n : Text),
      (op.isOrdering || op.isEquality) = true → number raw.unquote = n →
      compare op raw
        = .ok (join [⟨none, "\"age\" ".toList ++ op.spelling
            ++ ' ' :: n⟩]) := by
    intro op raw n hop hn
    obtain ⟨-, hat⟩ := hcompare f age op (Or.inl rfl) hop
    have h := (hat "age".toList raw none [] []).1 (by decide) rfl
    rw [← hn]
    exact h
  exact ⟨hmem, hnot, hcompiled .ge "'\n-.5E+3 '".toList _ rfl hge,
    hcompiled .ne "१२".toList _ rfl hne⟩

end Filter
end FilterQuery
