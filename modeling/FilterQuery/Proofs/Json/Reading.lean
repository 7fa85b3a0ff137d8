/-
Every text of a value is read as that value. The reader knows no forms: it
goes through the characters once to make tokens, and through the tokens
once to fill holes. What a form is read as is therefore said in the state
that the reader is in: a value turns a state that wants one into the state
after the innermost hole has been filled, and the items of an array, or the
members of an object, up to its closing sign, do the same for the array or
the object (`Reads`). `reads_of_written` is the induction over the rules of
the format; the root of a text fills no hole, and the reader is done.

A string is put together in two steps. The parts that scanning finds have a
text if and only if the body between the marks has one, and it is the same
(`isBodyOf_of_join`).
-/
import FilterQuery.Proofs.Json.Writing

namespace FilterQuery
namespace Json

open Token (scan start isWordChar)

-- ================================================================ strings

/-- The parts that a body is cut into. -/
inductive Pieces : List Piece → Text → Prop where
  | nil : Pieces [] []
  | char {c : Char} {ps : List Piece} {u : Text} (h : IsUnescaped c)
      (hu : Pieces ps u) : Pieces (.char c :: ps) (c :: u)
  | short {e c : Char} {ps : List Piece} {u : Text}
      (h : (e, c) ∈ shortEscapes) (hu : Pieces ps u) :
      Pieces (.char c :: ps) ('\\' :: e :: u)
  | unit {n : Nat} {ds u : Text} {ps : List Piece} (h : IsUnit n ds)
      (hu : Pieces ps u) :
      Pieces (.ofUnit n :: ps) ('\\' :: 'u' :: (ds ++ u))

/-- What may stand between the marks of a string is made of pieces. -/
private theorem exists_pieces {u : Text} (h : IsBody u) :
    ∃ ps, Pieces ps u := by
  induction h with
  | nil => exact ⟨_, .nil⟩
  | char h hu ih =>
      obtain ⟨ps, hps⟩ := ih
      exact ⟨_, .char h hps⟩
  | short h hu ih =>
      obtain ⟨ps, hps⟩ := ih
      exact ⟨_, .short h hps⟩
  | unit h hu ih =>
      obtain ⟨ps, hps⟩ := ih
      exact ⟨_, .unit h hps⟩

private theorem ofUnit_of_isHalf {n : Nat} (h : IsHalf n) :
    Piece.ofUnit n = .half n := if_pos h

private theorem ofUnit_of_not_isHalf {n : Nat} (h : ¬IsHalf n) :
    Piece.ofUnit n = .char (.ofNat n) := if_neg h

/-- A unit that is read as half a character is one. -/
private theorem eq_of_ofUnit_eq_half {n m : Nat}
    (h : Piece.ofUnit n = .half m) :
    n = m ∧ IsHalf n := by
  by_cases hn : IsHalf n
  · rw [ofUnit_of_isHalf hn] at h
    exact ⟨Piece.half.inj h, hn⟩
  · rw [ofUnit_of_not_isHalf hn] at h
    cases h

/-- What a first part that is a character is read from. -/
theorem Pieces.of_char {c : Char} {ps : List Piece} {u : Text}
    (h : Pieces (.char c :: ps) u) :
    ∃ v, Pieces ps v ∧ ∀ t, IsBodyOf t v → IsBodyOf (c :: t) u := by
  generalize hp : Piece.char c :: ps = qs at h
  cases h with
  | nil => cases hp
  | char h hu =>
      obtain ⟨hc, rfl⟩ := List.cons.inj hp
      obtain rfl := Piece.char.inj hc
      exact ⟨_, hu, fun t ht => .char h ht⟩
  | short h hu =>
      obtain ⟨hc, rfl⟩ := List.cons.inj hp
      obtain rfl := Piece.char.inj hc
      exact ⟨_, hu, fun t ht => .short h ht⟩
  | @unit n ds u qs h hu =>
      obtain ⟨hc, rfl⟩ := List.cons.inj hp
      by_cases hn : IsHalf n
      · rw [ofUnit_of_isHalf hn] at hc
        cases hc
      · rw [ofUnit_of_not_isHalf hn] at hc
        obtain rfl := Piece.char.inj hc
        exact ⟨_, hu, fun t ht => .unit h hn ht⟩

/-- What a first part that is half a character is read from. -/
theorem Pieces.of_half {n : Nat} {ps : List Piece} {u : Text}
    (h : Pieces (.half n :: ps) u) :
    ∃ ds v, IsUnit n ds ∧ IsHalf n ∧ u = '\\' :: 'u' :: (ds ++ v)
      ∧ Pieces ps v := by
  generalize hp : Piece.half n :: ps = qs at h
  cases h with
  | nil => cases hp
  | char h hu => cases (List.cons.inj hp).1
  | short h hu => cases (List.cons.inj hp).1
  | unit h hu =>
      obtain ⟨hn, rfl⟩ := List.cons.inj hp
      obtain ⟨rfl, hhalf⟩ := eq_of_ofUnit_eq_half hn.symm
      exact ⟨_, _, h, hhalf, rfl, hu⟩

/-- The text of the parts of a body is the text of the body. -/
private theorem isBodyOf_of_join {ps : List Piece} {t u : Text}
    (h : Pieces ps u) (ht : Piece.join ps = some t) : IsBodyOf t u := by
  fun_induction Piece.join ps generalizing t u with
  | case1 =>
      obtain rfl := Option.some.inj ht
      cases h
      exact .nil
  | case2 c ps ih =>
      obtain ⟨t', ht', rfl⟩ := Option.map_eq_some_iff.1 ht
      obtain ⟨v, hv, hbody⟩ := h.of_char
      exact hbody _ (ih hv ht')
  | case3 m n ps hpair ih =>
      obtain ⟨t', ht', rfl⟩ := Option.map_eq_some_iff.1 ht
      obtain ⟨ds, v, hm, hmhalf, rfl, hv⟩ := h.of_half
      obtain ⟨es, w, hn, hnhalf, rfl, hw⟩ := hv.of_half
      exact .pair hm hn ⟨hmhalf.1, hpair.1⟩ ⟨hpair.2, hnhalf.2⟩ (ih hw ht')
  | case4 => cases ht
  | case5 => cases ht

/-- The parts of a body that has a text. -/
private theorem exists_pieces_of_isBodyOf {t u : Text} (h : IsBodyOf t u) :
    ∃ ps, Pieces ps u ∧ Piece.join ps = some t := by
  induction h with
  | nil => exact ⟨[], .nil, rfl⟩
  | char h hu ih =>
      obtain ⟨ps, hps, hjoin⟩ := ih
      exact ⟨_, .char h hps, by simp [Piece.join, hjoin]⟩
  | short h hu ih =>
      obtain ⟨ps, hps, hjoin⟩ := ih
      exact ⟨_, .short h hps, by simp [Piece.join, hjoin]⟩
  | unit h hn hu ih =>
      obtain ⟨ps, hps, hjoin⟩ := ih
      refine ⟨_, .unit h hps, ?_⟩
      rw [ofUnit_of_not_isHalf hn]
      simp [Piece.join, hjoin]
  | pair hm hn hfirst hsecond hu ih =>
      obtain ⟨ps, hps, hjoin⟩ := ih
      refine ⟨_, .unit hm (.unit hn hps), ?_⟩
      have hmhalf : IsHalf _ := ⟨hfirst.1, by omega⟩
      have hnhalf : IsHalf _ := ⟨by omega, hsecond.2⟩
      rw [ofUnit_of_isHalf hmhalf, ofUnit_of_isHalf hnhalf, Piece.join,
        if_pos ⟨hfirst.2, hsecond.1⟩, hjoin]
      rfl

/-- The parts of a string have the text of the string. -/
theorem exists_pieces_of_isString {t : Option Text} {u : Text}
    (h : IsString t u) :
    ∃ ps v, u = '"' :: (v ++ ['"']) ∧ Pieces ps v ∧ Piece.join ps = t := by
  cases h with
  | text h =>
      obtain ⟨ps, hps, hjoin⟩ := exists_pieces_of_isBodyOf h
      exact ⟨ps, _, rfl, hps, hjoin⟩
  | unpaired h hno =>
      obtain ⟨ps, hps⟩ := exists_pieces h
      refine ⟨ps, _, rfl, hps, ?_⟩
      cases hjoin : Piece.join ps with
      | none => rfl
      | some t => exact absurd (isBodyOf_of_join hps hjoin) (hno t)

/-- Four digits are read as the unit that they are for. -/
private theorem hex?_of_isUnit {n : Nat} {ds : Text} (h : IsUnit n ds) :
    Token.hex? ds = some n := by
  cases h with
  | digits ha hb hc hd => simp [Token.hex?, ha, hb, hc, hd]

/-- Between its marks a string is scanned as its parts. -/
theorem scan_body {ps : List Piece} {u : Text} (h : Pieces ps u)
    (read : List Piece) (rest : Text) :
    scan (.string read) (u ++ '"' :: rest)
      = .string (Piece.join (read ++ ps)) :: scan .between rest := by
  induction h generalizing read with
  | nil => simp [scan]
  | @char c ps u h hu ih =>
      obtain ⟨hsize, hquote, hslash⟩ := h
      have hstep : scan (.string read) (c :: (u ++ '"' :: rest))
          = scan (.string (read ++ [.char c])) (u ++ '"' :: rest) := by
        simp [scan, hslash, Nat.not_lt.2 hsize]
      rw [List.cons_append, hstep, ih, List.append_assoc]
      rfl
  | @short e c ps u h hu ih =>
      have hescapes : ∀ p ∈ shortEscapes,
          p.1 ≠ 'u' ∧ Token.escape? p.1 = some p.2 := by
        decide
      obtain ⟨he, hescape⟩ := hescapes _ h
      have hstep : scan (.string read) ('\\' :: e :: (u ++ '"' :: rest))
          = scan (.string (read ++ [.char c])) (u ++ '"' :: rest) := by
        rw [scan]
        · rw [hescape]
        · intro a b c d t heq
          exact absurd heq he
      rw [List.cons_append, List.cons_append, hstep, ih, List.append_assoc]
      rfl
  | @unit n ds u ps h hu ih =>
      have hhex := hex?_of_isUnit h
      cases h with
      | digits ha hb hc hd =>
          simp only [List.cons_append, List.nil_append, scan, hhex, ih,
            List.append_assoc]

-- ================================================================== words

/-- A text that no word goes on in. -/
def Stops (rest : Text) : Prop :=
  ∀ c t, rest = c :: t → isWordChar c = false

private theorem stops_cons {c : Char} (h : isWordChar c = false) (t : Text) :
    Stops (c :: t) := by
  intro d u hdu
  obtain ⟨rfl, -⟩ := List.cons.inj hdu
  exact h

private theorem Stops.space {s rest : Text} (hs : IsSpace s) (h : Stops rest) :
    Stops (s ++ rest) := by
  cases s with
  | nil => exact h
  | cons c s =>
      have hspace : ∀ c ∈ [' ', '\t', '\n', '\r'], isWordChar c = false := by
        simp [isWordChar]
      exact stops_cons (hspace c (hs c (List.mem_cons_self ..))) _

/-- White space between tokens is passed over. -/
private theorem scan_space {s : Text} (hs : IsSpace s) (rest : Text) :
    scan .between (s ++ rest) = scan .between rest := by
  induction s with
  | nil => rfl
  | cons c s ih =>
      have hstart : ∀ c ∈ [' ', '\t', '\n', '\r'],
          start c = .scan .between := by
        intro c hc
        simp only [List.mem_cons, List.not_mem_nil, or_false] at hc
        rcases hc with rfl | rfl | rfl | rfl <;> rfl
      rw [List.cons_append, scan, hstart c (hs c (List.mem_cons_self ..))]
      exact ih fun d hd => hs d (List.mem_cons_of_mem _ hd)

/-- Where a word stops, scanning goes on as it does between tokens. -/
private theorem scan_word_stop {rest : Text} (h : Stops rest) (w : Text) :
    scan (.word w) rest = .word w :: scan .between rest := by
  cases rest with
  | nil => rfl
  | cons c t =>
      have hc := h c t rfl
      simp [scan, hc]

/-- Characters of words before something that is none are scanned as one
word. -/
private theorem scan_word {w rest : Text} (hne : w ≠ [])
    (hw : ∀ c ∈ w, isWordChar c = true) (hrest : Stops rest) :
    scan .between (w ++ rest) = .word w :: scan .between rest := by
  have hinside : ∀ read v, (∀ c ∈ v, isWordChar c = true) →
      scan (.word read) (v ++ rest)
        = .word (read ++ v) :: scan .between rest := by
    intro read v hv
    induction v generalizing read with
    | nil => simpa using scan_word_stop hrest read
    | cons c v ih =>
        have hc := hv c (List.mem_cons_self ..)
        rw [List.cons_append, scan, if_pos hc,
          ih _ fun d hd => hv d (List.mem_cons_of_mem _ hd),
          List.append_assoc]
        rfl
  cases w with
  | nil => exact absurd rfl hne
  | cons c v =>
      have hc := hw c (List.mem_cons_self ..)
      have hstart : start c = .scan (.word [c]) := by
        unfold start
        split <;> first | cases hc | exact if_pos hc
      rw [List.cons_append, scan, hstart]
      exact hinside [c] v fun d hd => hw d (List.mem_cons_of_mem _ hd)

-- ================================================================ numbers

private theorem isWordChar_of_isDigit {c : Char} (h : c.isDigit = true) :
    isWordChar c = true := by
  simp [isWordChar, Char.isAlphanum, h]

private theorem IsWhole.isDigit {t : Text} (h : IsWhole t) :
    ∀ d ∈ t, d.isDigit = true := by
  cases h with
  | zero => simp
  | digits hc hne hds =>
      intro d hd
      rcases List.mem_cons.1 hd with rfl | hd
      · exact hc
      · exact hds d hd

/-- The whole part of a number passes for one. -/
private theorem IsWhole.isWholeNumber {t : Text} (h : IsWhole t) :
    isWholeNumber t = true := by
  cases h with
  | zero => rfl
  | @digits c ds hc hne hds =>
      have hall : ds.all Char.isDigit = true := List.all_eq_true.2 hds
      unfold Json.isWholeNumber
      split
      · contradiction
      · rfl
      · rename_i c' ds' _ heq
        obtain ⟨rfl, rfl⟩ := List.cons.inj heq
        simp [hne, hc, hall]

/-- Its exponent passes for one. -/
private theorem IsPower.isExponent {t : Text} (h : IsPower t) :
    isExponent t = true := by
  cases h with
  | none => rfl
  | @digits e sign ds he hs hne hds =>
      have hdigits := Text.isDigits_iff.2 ⟨hne, hds⟩
      have he : e = 'e' ∨ e = 'E' := by simpa using he
      have hs : sign = [] ∨ sign = ['+'] ∨ sign = ['-'] := by simpa using hs
      rcases hs with rfl | rfl | rfl
      · -- Without a sign the first digit follows the letter.
        obtain ⟨d, ds, rfl⟩ := List.exists_cons_of_ne_nil hne
        have hd := hds d (List.mem_cons_self ..)
        have hplus : d ≠ '+' := by rintro rfl; cases hd
        have hminus : d ≠ '-' := by rintro rfl; cases hd
        rw [List.nil_append, Json.isExponent]
        · simp [he, hdigits]
        · intro t heq
          exact hplus (List.cons.inj heq).1
        · intro t heq
          exact hminus (List.cons.inj heq).1
      · simp [Json.isExponent, he, hdigits]
      · simp [Json.isExponent, he, hdigits]

/-- No exponent goes on with a digit or a point. -/
private theorem IsPower.no_digit {t : Text} (h : IsPower t) :
    ∀ c u, t = c :: u → c.isDigit = false ∧ c ≠ '.' := by
  intro c u htu
  cases h with
  | none => cases htu
  | digits he hs hne hds =>
      obtain ⟨rfl, -⟩ := List.cons.inj htu
      have hall : ∀ e ∈ ['e', 'E'], e.isDigit = false ∧ e ≠ '.' := by simp
      exact hall _ he

/-- A number that is written as the format has it passes for one. -/
theorem isNumber_of_isNumeral {t : Text} (h : IsNumeral t) :
    isNumber t = true := by
  cases h with
  | @parts sign whole fraction power hs hw hf hp =>
      have hsign : (sign ++ (whole ++ (fraction ++ power))).dropLeading '-'
          = whole ++ (fraction ++ power) := by
        have hs : sign = [] ∨ sign = ['-'] := by simpa using hs
        rcases hs with rfl | rfl
        · obtain ⟨c, ds, rfl⟩ : ∃ c ds, whole = c :: ds := by
            cases hw with
            | zero => exact ⟨_, _, rfl⟩
            | digits => exact ⟨_, _, rfl⟩
          have hc := hw.isDigit c (List.mem_cons_self ..)
          have hminus : c ≠ '-' := by rintro rfl; cases hc
          simp [Text.dropLeading, hminus]
        · simp [Text.dropLeading]
      -- The digits of the whole part end where the next part begins.
      have hstop : ∀ c u, fraction ++ power = c :: u →
          c.isDigit = false := by
        intro c u hcu
        cases hf with
        | none => exact (hp.no_digit c u hcu).1
        | digits =>
            obtain ⟨rfl, -⟩ := List.cons.inj hcu
            rfl
      obtain ⟨htake, hdrop⟩ :=
        Text.takeWhile_digits hw.isDigit hstop
      unfold isNumber
      rw [hsign]
      simp only [htake, hdrop, hw.isWholeNumber, Bool.true_and]
      cases hf with
      | none =>
          rw [List.nil_append]
          split
          · exact absurd rfl (hp.no_digit _ _ rfl).2
          · exact hp.isExponent
      | @digits ds hne hds =>
          obtain ⟨htake, hdrop⟩ :=
            Text.takeWhile_digits hds fun c u hcu => (hp.no_digit c u hcu).1
          simp only [List.cons_append, htake, hdrop,
            Text.isDigits_iff.2 ⟨hne, hds⟩, hp.isExponent, Bool.and_self]

/-- All of a number is scanned as one word. -/
private theorem IsNumeral.all_wordChar {t : Text} (h : IsNumeral t) :
    ∀ c ∈ t, isWordChar c = true := by
  cases h with
  | @parts sign whole fraction power hs hw hf hp =>
      have hdigits : ∀ {ds : Text}, (∀ d ∈ ds, d.isDigit = true) →
          ∀ d ∈ ds, isWordChar d = true :=
        fun hds d hd => isWordChar_of_isDigit (hds d hd)
      intro c hc
      simp only [List.mem_append] at hc
      rcases hc with hc | hc | hc | hc
      · have hall : ∀ s ∈ [[], ['-']], ∀ c ∈ s, isWordChar c = true := by
          simp [isWordChar]
        exact hall sign hs c hc
      · exact hdigits hw.isDigit c hc
      · cases hf with
        | none => cases hc
        | digits hne hds =>
            rcases List.mem_cons.1 hc with rfl | hc
            · rfl
            · exact hdigits hds c hc
      · cases hp with
        | none => cases hc
        | @digits e sign ds he hs hne hds =>
            have hall : ∀ e ∈ ['e', 'E'], isWordChar e = true := by
              simp [isWordChar]
            have hall' : ∀ s ∈ [[], ['+'], ['-']],
                ∀ c ∈ s, isWordChar c = true := by
              simp [isWordChar]
            rcases List.mem_cons.1 hc with rfl | hc
            · exact hall _ he
            · rcases List.mem_append.1 hc with hc | hc
              · exact hall' sign hs c hc
              · exact hdigits hds c hc

/-- A number is no other word. -/
theorem ofWord?_of_isNumeral {t : Text} (h : IsNumeral t) :
    Tree.ofWord? t = some (.number t) := by
  have hnumber := isNumber_of_isNumeral h
  have hnot : ∀ w ∈ ["null".toList, "true".toList, "false".toList],
      isNumber w = false := by
    decide
  have hne : ∀ w ∈ ["null".toList, "true".toList, "false".toList],
      t ≠ w := by
    rintro w hw rfl
    rw [hnot t hw] at hnumber
    cases hnumber
  unfold Tree.ofWord?
  rw [if_neg (hne _ (by simp)), if_neg (hne _ (by simp)),
    if_neg (hne _ (by simp)), if_pos hnumber]

private theorem IsNumeral.ne_nil {t : Text} (h : IsNumeral t) : t ≠ [] := by
  rintro rfl
  cases isNumber_of_isNumeral h

-- ================================================================= holes

open Json.Tree (State Hole fill begin step)

/-- A token that fits leads to the next state. -/
private theorem ofTokens_cons {s s' : State} {t : Token}
    (h : step s t = some s') (ts : List Token) :
    Document.ofTokens s (t :: ts) = Document.ofTokens s' ts := by
  cases s <;> simp only [Document.ofTokens, h]

/-- A value may start here, to fill the innermost hole. -/
def Opens (s : State) (holes : List Hole) : Prop :=
  ∀ t, t ≠ .closeBracket → step s t = begin holes t

/-- A key may start here, behind these members. -/
def OpensKey (s : State) (before : List (Option Text × Tree))
    (holes : List Hole) : Prop :=
  ∀ k, step s (.string k) = some (.colon before k holes)

private theorem opens_value (holes : List Hole) : Opens (.value holes) holes :=
  fun _ _ => rfl

private theorem opens_firstItem (holes : List Hole) :
    Opens (.firstItem holes) (.item [] :: holes) := by
  intro t ht
  cases t with
  | closeBracket => exact absurd rfl ht
  | _ => rfl

/-- What a form makes of the state of the reader, and where it may stop. -/
def Reads : Form → Text → Prop
  | .value v, t | .padded v, t => ∀ s holes rest, Opens s holes →
      Stops rest → Document.ofTokens s (scan .between (t ++ rest))
        = Document.ofTokens (fill v holes) (scan .between rest)
  | .items vs, t => ∀ s before holes rest, Opens s (.item before :: holes) →
      Document.ofTokens s (scan .between (t ++ ']' :: rest))
        = Document.ofTokens (fill (.array (before ++ vs)) holes)
            (scan .between rest)
  | .member k v, t => ∀ s before holes rest, OpensKey s before holes →
      Stops rest → Document.ofTokens s (scan .between (t ++ rest))
        = Document.ofTokens (.afterMember (before ++ [(k, v)]) holes)
            (scan .between rest)
  | .members ms, t => ∀ s before holes rest, OpensKey s before holes →
      Document.ofTokens s (scan .between (t ++ '\x7d' :: rest))
        = Document.ofTokens (fill (.object (before ++ ms)) holes)
            (scan .between rest)

/-- A bare word is read as what it stands for. -/
private theorem reads_word {w : Text} {v : Tree} (hne : w ≠ [])
    (hw : ∀ c ∈ w, isWordChar c = true) (hv : Tree.ofWord? w = some v) :
    Reads (.value v) w := by
  intro s holes rest hs hrest
  have hstep : step s (.word w) = some (fill v holes) := by
    rw [hs _ (by simp)]
    simp [begin, hv]
  rw [scan_word hne hw hrest, ofTokens_cons hstep]

/-- Every text of a form is read as the form says. -/
theorem reads_of_written {f : Form} {t : Text} (h : Written f t) :
    Reads f t := by
  -- A value is read in any state that it may start in, and the rest of a list
  -- behind whatever has been read of it.
  induction h with
  | null => exact reads_word (by simp) (by simp [isWordChar]) rfl
  | true => exact reads_word (by simp) (by simp [isWordChar]) rfl
  | false => exact reads_word (by simp) (by simp [isWordChar]) rfl
  | number h =>
      exact reads_word h.ne_nil h.all_wordChar (ofWord?_of_isNumeral h)
  | string h =>
      intro s holes rest hs _
      obtain ⟨ps, v, rfl, hps, rfl⟩ := exists_pieces_of_isString h
      have hstep : step s (.string (Piece.join ps))
          = some (fill (.string (Piece.join ps)) holes) :=
        hs _ (by simp)
      have hscan : scan .between ('"' :: (v ++ ['"']) ++ rest)
          = .string (Piece.join ps) :: scan .between rest := by
        rw [List.cons_append, List.append_assoc]
        exact scan_body hps [] rest
      rw [hscan, ofTokens_cons hstep]
  | @emptyArray sp hspace =>
      intro s holes rest hs _
      have hscan : scan .between ('[' :: (sp ++ [']']) ++ rest)
          = .openBracket :: .closeBracket :: scan .between rest := by
        rw [List.cons_append, List.append_assoc]
        show _ :: scan .between (sp ++ _) = _
        rw [scan_space hspace]
        rfl
      rw [hscan, ofTokens_cons (hs _ (by simp))]
      rfl
  | @array vs t h ih =>
      intro s holes rest hs _
      have hscan : scan .between ('[' :: (t ++ [']']) ++ rest)
          = .openBracket :: scan .between (t ++ ']' :: rest) := by
        rw [List.cons_append, List.append_assoc]
        rfl
      rw [hscan, ofTokens_cons (hs _ (by simp))]
      exact ih _ [] holes rest (opens_firstItem holes)
  | @emptyObject sp hspace =>
      intro s holes rest hs _
      have hscan : scan .between ('\x7b' :: (sp ++ ['\x7d']) ++ rest)
          = .openBrace :: .closeBrace :: scan .between rest := by
        rw [List.cons_append, List.append_assoc]
        show _ :: scan .between (sp ++ _) = _
        rw [scan_space hspace]
        rfl
      rw [hscan, ofTokens_cons (hs _ (by simp))]
      rfl
  | @object ms t h ih =>
      intro s holes rest hs _
      have hscan : scan .between ('\x7b' :: (t ++ ['\x7d']) ++ rest)
          = .openBrace :: scan .between (t ++ '\x7d' :: rest) := by
        rw [List.cons_append, List.append_assoc]
        rfl
      rw [hscan, ofTokens_cons (hs _ (by simp))]
      exact ih (.firstKey holes) [] holes rest fun k => rfl
  | @padded v sp t u hsp h hu ih =>
      intro s holes rest hs hrest
      rw [List.append_assoc, List.append_assoc, scan_space hsp,
        ih s holes _ hs (hrest.space hu), scan_space hu]
  | @item v t h ih =>
      intro s before holes rest hs
      rw [ih s _ _ hs (stops_cons rfl rest)]
      rfl
  | @items v vs t u h hvs ih ihvs =>
      intro s before holes rest hs
      rw [List.append_assoc, List.cons_append, ih s _ _ hs (stops_cons rfl _)]
      have hnext := ihvs _ (before ++ [v]) holes rest (opens_value _)
      rw [List.append_assoc] at hnext
      exact hnext
  | @member k v sp t u w hsp hk hu h ih =>
      intro s before holes rest hs hrest
      obtain ⟨ps, b, rfl, hps, rfl⟩ := exists_pieces_of_isString hk
      have hscan : scan .between
            (sp ++ ('"' :: (b ++ ['"']) ++ (u ++ ':' :: w)) ++ rest)
          = .string (Piece.join ps) :: .colon
              :: scan .between (w ++ rest) := by
        have hcolon : scan .between (u ++ (':' :: w ++ rest))
            = .colon :: scan .between (w ++ rest) := by
          rw [scan_space hu]
          rfl
        rw [List.append_assoc, scan_space hsp, List.cons_append,
          List.cons_append, List.append_assoc, List.append_assoc,
          List.append_assoc]
        show scan (.string []) _ = _
        rw [List.singleton_append, scan_body hps, hcolon]
        rfl
      rw [hscan, ofTokens_cons (hs _), ofTokens_cons rfl]
      exact ih _ _ rest (opens_value _) hrest
  | @lastMember k v t h ih =>
      intro s before holes rest hs
      rw [ih s before holes _ hs (stops_cons rfl rest)]
      rfl
  | @members k v ms t u h hms ih ihms =>
      intro s before holes rest hs
      rw [List.append_assoc, List.cons_append,
        ih s before holes _ hs (stops_cons rfl _)]
      have hnext := ihms (.key (before ++ [(k, v)]) holes)
        (before ++ [(k, v)]) holes rest fun k => rfl
      rw [List.append_assoc] at hnext
      exact hnext

/-- A text of a value is read as the value, to its end. -/
theorem ofText_of_written {v : Tree} {t : Text} (h : Written (.padded v) t) :
    Document.ofText t = ⟨v, true⟩ := by
  have hread := reads_of_written h (.value []) [] [] (opens_value [])
    (fun c t h => nomatch h)
  rw [List.append_nil] at hread
  exact hread

/-- No text of a value has a broken part. -/
theorem isWhole_of_written {f : Form} {t : Text} (h : Written f t) :
    match f with
    | .value v | .padded v | .member _ v => v.isWhole = true
    | .items vs => Tree.allWhole vs = true
    | .members ms => Tree.allMembersWhole ms = true := by
  induction h with
  | null | true | false | number _ | string _ => rfl
  | emptyArray _ | emptyObject _ => rfl
  | array h ih => simpa [Tree.isWhole] using ih
  | object h ih => simpa [Tree.isWhole] using ih
  | padded hs h hu ih => exact ih
  | item h ih => simpa [Tree.allWhole] using ih
  | items h hs ih ihs => simpa [Tree.allWhole] using ⟨ih, ihs⟩
  | member hs hk hu h ih => exact ih
  | lastMember h ih => simpa [Tree.allMembersWhole] using ih
  | members h hs ih ihs => simpa [Tree.allMembersWhole] using ⟨ih, ihs⟩

end Json
end FilterQuery
