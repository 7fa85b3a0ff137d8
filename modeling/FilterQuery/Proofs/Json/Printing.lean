/-
The shortest print of a JSON value: no white space, and in strings nothing
escaped but what has to be. It is a text of the value (`written_compact`),
whatever is in its strings, as long as its numbers are spelled as the
format spells them.
-/
import FilterQuery.Json.Value
import FilterQuery.Proofs.Json.Writing

namespace FilterQuery
namespace Json

-- ================================================================ strings

/-- A character in print, before the rest of a string. -/
theorem isBodyOf_escapeChar (c : Char) {t u : Text} (h : IsBodyOf t u) :
    IsBodyOf (c :: t) (escapeChar c ++ u) := by
  unfold escapeChar
  split
  iterate 7 exact .short (by decide) h
  rename_i hquote hslash _ _ _ _ _
  by_cases hc : c.toNat < 0x20
  · have hdigit : ∀ n < 16, hexDigit? (Nat.digitChar n) = some n := by decide
    have hunit : IsUnit c.toNat ['0', '0', Nat.digitChar (c.toNat / 16),
        Nat.digitChar (c.toNat % 16)] := by
      have hdigits := @IsUnit.digits '0' '0' _ _ 0 0 _ _ rfl rfl
        (hdigit (c.toNat / 16) (by omega)) (hdigit (c.toNat % 16) (by omega))
      have hvalue : 16 * (16 * (16 * 0 + 0) + c.toNat / 16) + c.toNat % 16
          = c.toNat := by
        omega
      rw [hvalue] at hdigits
      exact hdigits
    have hhalf : ¬IsHalf c.toNat := by
      unfold IsHalf
      omega
    have hbody := IsBodyOf.unit hunit hhalf h
    rw [Char.ofNat_toNat] at hbody
    rw [if_pos hc]
    exact hbody
  · rw [if_neg hc]
    exact .char ⟨by omega, hquote, hslash⟩ h

/-- A text in print is a string of that text. -/
theorem isString_quote (t : Text) : IsString (some t) (quote t) := by
  apply IsString.text
  induction t with
  | nil => exact .nil
  | cons c t ih => exact isBodyOf_escapeChar c ih

-- ================================================================ numbers

/-- No number but zero starts with a zero. -/
theorem exists_cons_ofNat {n : Nat} (h : 0 < n) :
    ∃ c ds, Text.ofNat n = c :: ds ∧ c ≠ '0' := by
  induction n using Nat.strongRecOn with
  | _ n ih =>
      by_cases hn : n < 10
      · have hdigit : ∀ d < 10, 0 < d → Nat.digitChar d ≠ '0' := by decide
        exact ⟨_, [], Nat.toDigits_of_lt_base hn, hdigit n hn h⟩
      · obtain ⟨c, ds, hds, hc⟩ := ih (n / 10) (by omega) (by omega)
        have happend : Text.ofNat n
            = Text.ofNat (n / 10) ++ [Nat.digitChar (n % 10)] :=
          Nat.toDigits_of_base_le (by omega) (by omega)
        rw [hds] at happend
        exact ⟨c, _, happend, hc⟩

/-- A number in decimal digits is one of the format's. -/
theorem isNumeral_ofNat (n : Nat) : IsNumeral (Text.ofNat n) := by
  have hwhole : IsWhole (Text.ofNat n) := by
    rcases Nat.eq_zero_or_pos n with rfl | hn
    · exact .zero
    · obtain ⟨c, ds, hds, hc⟩ := exists_cons_ofNat hn
      have hall := @Text.isDigit_of_mem_ofNat n
      rw [hds] at hall ⊢
      exact .digits (hall c (List.mem_cons_self ..)) hc
        fun d hd => hall d (List.mem_cons_of_mem _ hd)
  have h := @IsNumeral.parts [] _ _ _ (by simp) hwhole .none .none
  rwa [List.nil_append, List.append_nil, List.append_nil] at h

-- ================================================================= values

theorem isSpace_nil : IsSpace [] := fun _ h => nomatch h

/-- White space need not stand around a value. -/
theorem Written.bare {v : Tree} {t : Text} (h : Written (.value v) t) :
    Written (.padded v) t := by
  have hpadded := Written.padded isSpace_nil h isSpace_nil
  rwa [List.nil_append, List.append_nil] at hpadded

/-- Nor does it have to stand anywhere in a member. -/
theorem Written.bareMember {v : Tree} {t : Text}
    (h : Written (.value v) t) (k : Text) :
    Written (.member (some k) v) (quote k ++ ':' :: t) :=
  .member isSpace_nil (isString_quote k) isSpace_nil h.bare

namespace Value

mutual

/-- The value in print, on one line and without a space. -/
def compact : Value → Text
  | null => "null".toList
  | bool b => (if b then "true" else "false").toList
  | number spelling => spelling
  | string t => quote t
  | array [] => ['[', ']']
  | array (v :: vs) => '[' :: (compact v ++ compactItems vs ++ [']'])
  | object [] => ['\x7b', '\x7d']
  | object ((k, v) :: ms) =>
      '\x7b' :: (quote k ++ ':' :: compact v ++ compactMembers ms ++ ['\x7d'])

/-- The elements after the first of an array. -/
def compactItems : List Value → Text
  | [] => []
  | v :: vs => ',' :: (compact v ++ compactItems vs)

/-- The members after the first of an object. -/
def compactMembers : List (Text × Value) → Text
  | [] => []
  | (k, v) :: ms =>
      ',' :: (quote k ++ ':' :: compact v ++ compactMembers ms)

end

mutual

/-- The value as a tree. -/
def toTree : Value → Tree
  | null => .null
  | bool b => .bool b
  | number spelling => .number spelling
  | string t => .string (some t)
  | array vs => .array (itemTrees vs)
  | object ms => .object (memberTrees ms)

/-- Each value as a tree. -/
def itemTrees : List Value → List Tree
  | [] => []
  | v :: vs => v.toTree :: itemTrees vs

/-- Each member with a tree as its value. -/
def memberTrees : List (Text × Value) → List (Option Text × Tree)
  | [] => []
  | (k, v) :: ms => (some k, v.toTree) :: memberTrees ms

end

section

variable (isNumber isText isKey : Text → Prop)

mutual

/-- All spellings of numbers, all texts and all keys in a value are of the
given kinds. -/
def All : Value → Prop
  | null | bool _ => True
  | number spelling => isNumber spelling
  | string t => isText t
  | array vs => AllItems vs
  | object ms => AllMembers ms

/-- The same in each of the values. -/
def AllItems : List Value → Prop
  | [] => True
  | v :: vs => All v ∧ AllItems vs

/-- The same in each of the members. -/
def AllMembers : List (Text × Value) → Prop
  | [] => True
  | (k, v) :: ms => isKey k ∧ All v ∧ AllMembers ms

end

end

variable {isNumber isText isKey : Text → Prop}

mutual

/-- A value in print is a text of the value. -/
theorem written_compact (hnumber : ∀ w, isNumber w → IsNumeral w) :
    ∀ v : Value, v.All isNumber isText isKey →
      Written (.value v.toTree) v.compact
  | .null, _ => .null
  | .bool true, _ => .true
  | .bool false, _ => .false
  | .number w, h => .number (hnumber w h)
  | .string t, _ => .string (isString_quote t)
  | .array [], _ => .emptyArray isSpace_nil
  | .array (v :: vs), h =>
      .array (written_compactItems hnumber vs h.2
        (written_compact hnumber v h.1).bare)
  | .object [], _ => .emptyObject isSpace_nil
  | .object ((k, v) :: ms), h => .object
      (written_compactMembers hnumber ms h.2.2
        ((written_compact hnumber v h.2.1).bareMember k))

/-- Elements in print follow the text of the one before them. -/
theorem written_compactItems (hnumber : ∀ w, isNumber w → IsNumeral w) :
    ∀ vs : List Value, AllItems isNumber isText isKey vs →
      ∀ {v : Tree} {t : Text}, Written (.padded v) t →
        Written (.items (v :: itemTrees vs)) (t ++ compactItems vs)
  | [], _, _, t, hv => by
      rw [compactItems, List.append_nil]
      exact .item hv
  | w :: vs, h, _, _, hv => .items hv
      (written_compactItems hnumber vs h.2
        (written_compact hnumber w h.1).bare)

/-- Members in print follow the text of the one before them. -/
theorem written_compactMembers
    (hnumber : ∀ w, isNumber w → IsNumeral w) :
    ∀ ms : List (Text × Value), AllMembers isNumber isText isKey ms →
      ∀ {k : Option Text} {v : Tree} {t : Text}, Written (.member k v) t →
        Written (.members ((k, v) :: memberTrees ms))
          (t ++ compactMembers ms)
  | [], _, _, _, t, hv => by
      rw [compactMembers, List.append_nil]
      exact .lastMember hv
  | (k, w) :: ms, h, _, _, _, hv => .members hv
      (written_compactMembers hnumber ms h.2.2
        ((written_compact hnumber w h.2.1).bareMember k))

end

end Value

end Json
end FilterQuery
