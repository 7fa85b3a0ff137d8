/-
The shortest print of a JSON value is YAML too. The print of an object is a
document of one flow mapping, with the same keys and values in the same
order: what is quoted there is quoted here, and a word or a number is a
plain scalar of its letters (`ofText_compact`).

The texts have to be printable ASCII, as there are characters that mean one
thing in the one format and another in the other, and the keys short. Both
scanning and reading go along the value; what each of them makes of it is
said from any spot, and in any place, that a value can stand in.
-/
import FilterQuery.Proofs.Json.Printing
import FilterQuery.Proofs.Yaml.Flow
import FilterQuery.Yaml.Node

namespace FilterQuery
namespace Yaml

open Json (Value)

/-- Nothing but letters and digits, and at least one of them. -/
def IsWord (w : Text) : Prop := w ≠ [] ∧ ∀ c ∈ w, c.isAlphanum = true

/-- Printable, and not too long for a key when it is printed. -/
def IsShort (k : Text) : Prop :=
  k.IsPrintable ∧ (Json.quote k).length ≤ 1024

instance (k : Text) : Decidable (IsShort k) :=
  inferInstanceAs (Decidable (_ ∧ _))

/-- Numbers are words, texts are printable, and keys are short. -/
abbrev Common : Value → Prop := Value.All IsWord Text.IsPrintable IsShort

-- ================================================================ tokens

mutual

/-- The tokens of a value in print. -/
def valueTokens : Value → List Token
  | .null => [.scalar .plain "null".toList]
  | .bool b => [.scalar .plain (if b then "true" else "false").toList]
  | .number w => [.scalar .plain w]
  | .string t => [.scalar .doubleQuoted t]
  | .array [] => [.flowSequenceStart, .flowSequenceEnd]
  | .array (v :: vs) => .flowSequenceStart :: (valueTokens v ++ itemTokens vs)
  | .object [] => [.flowMappingStart, .flowMappingEnd]
  | .object ((k, v) :: ms) =>
      .flowMappingStart :: .key :: .scalar .doubleQuoted k :: .value
        :: (valueTokens v ++ memberTokens ms)

/-- The tokens of the elements after the first of an array, and of its
end. -/
def itemTokens : List Value → List Token
  | [] => [.flowSequenceEnd]
  | v :: vs => .flowEntry :: (valueTokens v ++ itemTokens vs)

/-- The tokens of the members after the first of an object, and of its
end. -/
def memberTokens : List (Text × Value) → List Token
  | [] => [.flowMappingEnd]
  | (k, v) :: ms =>
      .flowEntry :: .key :: .scalar .doubleQuoted k :: .value
        :: (valueTokens v ++ memberTokens ms)

end

-- =============================================================== scanning

open Scanner (Leads leads_flowStart leads_flowEnd leads_comma leads_quote
  leads_word leads_key)

/-- A value may end here. -/
def Ends (rest : Text) : Prop :=
  ∃ c t, rest = c :: t ∧ c ∈ [',', ']', '\x7d']

private theorem ends_compactItems (vs : List Value) (t : Text) :
    Ends (Value.compactItems vs ++ ']' :: t) := by
  cases vs with
  | nil => exact ⟨_, _, rfl, by decide⟩
  | cons => exact ⟨_, _, rfl, by decide⟩

private theorem ends_compactMembers (ms : List (Text × Value)) (t : Text) :
    Ends (Value.compactMembers ms ++ '\x7d' :: t) := by
  cases ms with
  | nil => exact ⟨_, _, rfl, by decide⟩
  | cons => exact ⟨_, _, rfl, by decide⟩

mutual

/-- Scanning a value in print leads to its end and yields its tokens. -/
theorem leads_value : ∀ v : Value, Common v → ∀ {d : Nat} {a : Bool}
    {t : Text} {ts : List Token}, Ends t →
      Leads ⟨d + 1, a, v.compact ++ t, ts⟩
        ⟨d + 1, false, t, ts ++ valueTokens v⟩
  | .null, _, _, _, _, _, ⟨_, _, ht, hc⟩ => by
      subst ht
      exact leads_word (w := "null".toList) (by simp) (by simp) hc
  | .bool true, _, _, _, _, _, ⟨_, _, ht, hc⟩ => by
      subst ht
      exact leads_word (w := "true".toList) (by simp) (by simp) hc
  | .bool false, _, _, _, _, _, ⟨_, _, ht, hc⟩ => by
      subst ht
      exact leads_word (w := "false".toList) (by simp) (by simp) hc
  | .number w, h, _, _, _, _, ⟨_, _, ht, hc⟩ => by
      subst ht
      exact leads_word h.1 h.2 hc
  | .string t, h, _, _, _, _, _ => leads_quote h
  | .array [], _, d, a, t, ts, _ => by
      have hstart := @leads_flowStart '[' (']' :: t) (d + 1) a ts
        .flowSequenceStart (by decide)
      have hall := hstart.trans (@leads_flowEnd ']' t (d + 1) true _
        .flowSequenceEnd (by decide))
      rw [List.append_assoc] at hall
      exact hall
  | .array (v :: vs), h, d, a, t, ts, _ => by
      have hstart := @leads_flowStart '['
        (v.compact ++ (Value.compactItems vs ++ ']' :: t)) (d + 1) a ts
        .flowSequenceStart (by decide)
      have hall := hstart.trans
        ((leads_value v h.1 (ends_compactItems vs t)).trans
          (leads_items vs h.2))
      simpa only [Value.compact, valueTokens, List.cons_append,
        List.append_assoc, List.nil_append] using hall
  | .object ms, h, _, _, _, _, _ => leads_object ms h

/-- Scanning an object in print does, wherever it stands. -/
theorem leads_object : ∀ ms : List (Text × Value),
    Common (.object ms) → ∀ {d : Nat} {a : Bool} {t : Text}
    {ts : List Token},
      Leads ⟨d, a, (Value.object ms).compact ++ t, ts⟩
        ⟨d, false, t, ts ++ valueTokens (.object ms)⟩
  | [], _, d, a, t, ts => by
      have hstart := @leads_flowStart '\x7b' ('\x7d' :: t) d a ts
        .flowMappingStart (by decide)
      have hall := hstart.trans (@leads_flowEnd '\x7d' t d true _
        .flowMappingEnd (by decide))
      rw [List.append_assoc] at hall
      exact hall
  | (k, v) :: ms, h, d, a, t, ts => by
      obtain ⟨hkey, hvalue, hmembers⟩ := h
      have hstart := @leads_flowStart '\x7b' (Json.quote k
        ++ ':' :: (v.compact ++ (Value.compactMembers ms ++ '\x7d' :: t)))
        d a ts .flowMappingStart (by decide)
      have hall := hstart.trans
        ((leads_key hkey.1 hkey.2).trans
          ((leads_value v hvalue (ends_compactMembers ms t)).trans
            (leads_members ms hmembers)))
      simpa only [Value.compact, valueTokens, List.cons_append,
        List.append_assoc, List.nil_append] using hall

theorem leads_items : ∀ vs : List Value,
    Value.AllItems IsWord Text.IsPrintable IsShort vs → ∀ {d : Nat}
    {a : Bool} {t : Text} {ts : List Token},
      Leads ⟨d + 1, a, Value.compactItems vs ++ ']' :: t, ts⟩
        ⟨d, false, t, ts ++ itemTokens vs⟩
  | [], _, _, _, _, _ => leads_flowEnd (by decide)
  | v :: vs, h, d, a, t, ts => by
      have hall := (@leads_comma (v.compact
          ++ (Value.compactItems vs ++ ']' :: t)) (d + 1) a ts).trans
        ((leads_value v h.1 (ends_compactItems vs t)).trans
          (leads_items vs h.2))
      simpa only [Value.compactItems, itemTokens, List.cons_append,
        List.append_assoc, List.nil_append] using hall

theorem leads_members : ∀ ms : List (Text × Value),
    Value.AllMembers IsWord Text.IsPrintable IsShort ms → ∀ {d : Nat}
    {a : Bool} {t : Text} {ts : List Token},
      Leads ⟨d + 1, a, Value.compactMembers ms ++ '\x7d' :: t, ts⟩
        ⟨d, false, t, ts ++ memberTokens ms⟩
  | [], _, _, _, _, _ => leads_flowEnd (by decide)
  | (k, v) :: ms, h, d, a, t, ts => by
      obtain ⟨hkey, hvalue, hmembers⟩ := h
      have hall := (@leads_comma (Json.quote k ++ ':'
          :: (v.compact ++ (Value.compactMembers ms ++ '\x7d' :: t)))
          (d + 1) a ts).trans
        ((leads_key hkey.1 hkey.2).trans
          ((leads_value v hvalue (ends_compactMembers ms t)).trans
            (leads_members ms hmembers)))
      simpa only [Value.compactMembers, memberTokens, List.cons_append,
        List.append_assoc, List.nil_append] using hall

end

-- ================================================================= nodes

/-- A text between marks. -/
def quoted (t : Text) : Node := .scalar {} .doubleQuoted t

mutual

/-- The node that a value in print is read as. -/
def ofValue : Value → Node
  | .null => .scalar {} .plain "null".toList
  | .bool b => .scalar {} .plain (if b then "true" else "false").toList
  | .number w => .scalar {} .plain w
  | .string t => quoted t
  | .array vs => .sequence {} (ofItems vs)
  | .object ms => .mapping {} (ofMembers ms)

/-- Each value as a node. -/
def ofItems : List Value → List Node
  | [] => []
  | v :: vs => ofValue v :: ofItems vs

/-- Each member as a key and a value. -/
def ofMembers : List (Text × Value) → List (Node × Node)
  | [] => []
  | (k, v) :: ms => (quoted k, ofValue v) :: ofMembers ms

end

open Yaml.Node (State Place fill step)
open Document (ofTokens)

/-- A token that fits leads to the next state. -/
private theorem ofTokens_cons {s s' : State} {tok : Token}
    (h : step tok s.wanted s.places = .ok s') (hne : tok ≠ .broken)
    (ts : List Token) : ofTokens s (tok :: ts) = ofTokens s' ts := by
  rw [ofTokens, h]
  exact hne

/-- What a value may start with. -/
inductive StartsValue : Token → Prop where
  | scalar (style : Style) (t : Text) : StartsValue (.scalar style t)
  | sequence : StartsValue .flowSequenceStart
  | mapping : StartsValue .flowMappingStart

/-- A value may start here, and fills the innermost of the places. -/
def Opens (s : State) (places : List Place) : Prop :=
  ∀ tok, StartsValue tok → step tok s.wanted s.places
    = Node.orElse s (Node.begin {} places tok)

private theorem opens_place (place : Place) (places : List Place) :
    Opens ⟨.place, place :: places⟩ (place :: places) := by
  intro tok htok
  have hended : place.isEndedBy tok = false := by
    cases htok <;> cases place <;> rfl
  simp only [step, hended]
  cases htok <;> rfl

private theorem opens_item (items : List Node) (places : List Place) :
    Opens ⟨.flowItem {} items, places⟩ (.flowItem {} items :: places) := by
  intro tok htok
  cases htok <;> simp only [step] <;> rfl

private theorem opens_start : Opens .start [.root false] := by
  intro tok htok
  cases htok <;> rfl

/-- Reads the first token of a value. -/
private theorem ofTokens_begin {s s' : State} {places : List Place}
    {tok : Token} (hs : Opens s places) (htok : StartsValue tok)
    (hbegin : Node.begin {} places tok = some s') (ts : List Token) :
    ofTokens s (tok :: ts) = ofTokens s' ts := by
  apply ofTokens_cons
  · rw [hs tok htok, hbegin]
    rfl
  · rintro rfl
    cases htok

/-- Reads a key with its colon: its value fills the place of the key. -/
private theorem ofTokens_key (k : Text) (before : List (Node × Node))
    (places : List Place) (ts : List Token) :
    ofTokens ⟨.flowKey {} before, places⟩
        (.key :: .scalar .doubleQuoted k :: .value :: ts)
      = ofTokens ⟨.place, .flowValue {} before (quoted k) :: places⟩ ts := by
  have hkey : step .key (.flowKey {} before) places
      = .ok ⟨.place, .flowKey {} before :: places⟩ := by
    simp only [step]
    rfl
  have hvalue : step .value (.flowValue {} before (quoted k)) places
      = .ok ⟨.place, .flowValue {} before (quoted k) :: places⟩ := by
    simp only [step, if_true]
  rw [ofTokens_cons hkey (by decide),
    ofTokens_begin (opens_place _ _) (.scalar _ _) rfl]
  exact ofTokens_cons hvalue (by decide) ts

mutual

/-- The tokens of a value are read as its node, wherever it may stand. -/
theorem ofTokens_value : ∀ (v : Value) {s : State} {places : List Place}
    (ts : List Token), Opens s places →
      ofTokens s (valueTokens v ++ ts) = ofTokens (fill (ofValue v) places) ts
  | .null, _, _, ts, hs => ofTokens_begin hs (.scalar _ _) rfl ts
  | .bool _, _, _, ts, hs => ofTokens_begin hs (.scalar _ _) rfl ts
  | .number _, _, _, ts, hs => ofTokens_begin hs (.scalar _ _) rfl ts
  | .string _, _, _, ts, hs => ofTokens_begin hs (.scalar _ _) rfl ts
  | .array [], _, places, ts, hs => by
      have hend : step .flowSequenceEnd (.flowItem {} []) places
          = .ok (fill (.sequence {} []) places) := by
        simp only [step]
        rfl
      rw [valueTokens, List.cons_append, ofTokens_begin hs .sequence rfl]
      exact ofTokens_cons hend (by decide) ts
  | .array (v :: vs), _, places, ts, hs => by
      rw [valueTokens, List.cons_append, List.append_assoc,
        ofTokens_begin hs .sequence rfl,
        ofTokens_value v _ (opens_item [] places)]
      exact ofTokens_items vs [ofValue v] places ts
  | .object [], _, places, ts, hs => by
      have hend : step .flowMappingEnd (.flowKey {} []) places
          = .ok (fill (.mapping {} []) places) := by
        simp only [step]
        rfl
      rw [valueTokens, List.cons_append, ofTokens_begin hs .mapping rfl]
      exact ofTokens_cons hend (by decide) ts
  | .object ((k, v) :: ms), _, places, ts, hs => by
      simp only [valueTokens, List.cons_append, List.append_assoc]
      rw [ofTokens_begin hs .mapping rfl, ofTokens_key,
        ofTokens_value v _ (opens_place _ _)]
      exact ofTokens_members ms [(quoted k, ofValue v)] places ts

/-- The tokens of the other elements end the sequence. -/
theorem ofTokens_items : ∀ (vs : List Value) (before : List Node)
    (places : List Place) (ts : List Token),
      ofTokens ⟨.flowItemEnd {} before, places⟩ (itemTokens vs ++ ts)
        = ofTokens (fill (.sequence {} (before ++ ofItems vs)) places) ts
  | [], before, places, ts => by
      have hend : step .flowSequenceEnd (.flowItemEnd {} before) places
          = .ok (fill (.sequence {} before) places) := by
        simp only [step]
        rfl
      rw [ofItems, List.append_nil]
      exact ofTokens_cons hend (by decide) ts
  | v :: vs, before, places, ts => by
      have hnext : step .flowEntry (.flowItemEnd {} before) places
          = .ok ⟨.flowItem {} before, places⟩ := by
        simp only [step]
        rfl
      rw [itemTokens, List.cons_append, List.append_assoc,
        ofTokens_cons hnext (by decide),
        ofTokens_value v _ (opens_item before places)]
      have hrest := ofTokens_items vs (before ++ [ofValue v]) places ts
      rw [List.append_assoc] at hrest
      exact hrest

/-- The tokens of the other members end the mapping. -/
theorem ofTokens_members : ∀ (ms : List (Text × Value))
    (before : List (Node × Node)) (places : List Place) (ts : List Token),
      ofTokens ⟨.flowKeyEnd {} before, places⟩ (memberTokens ms ++ ts)
        = ofTokens (fill (.mapping {} (before ++ ofMembers ms)) places) ts
  | [], before, places, ts => by
      have hend : step .flowMappingEnd (.flowKeyEnd {} before) places
          = .ok (fill (.mapping {} before) places) := by
        simp only [step]
        rfl
      rw [ofMembers, List.append_nil]
      exact ofTokens_cons hend (by decide) ts
  | (k, v) :: ms, before, places, ts => by
      have hnext : step .flowEntry (.flowKeyEnd {} before) places
          = .ok ⟨.flowKey {} before, places⟩ := by
        simp only [step]
        rfl
      simp only [memberTokens, List.cons_append, List.append_assoc]
      rw [ofTokens_cons hnext (by decide), ofTokens_key,
        ofTokens_value v _ (opens_place _ _)]
      have hrest := ofTokens_members ms
        (before ++ [(quoted k, ofValue v)]) places ts
      rw [List.append_assoc] at hrest
      exact hrest

end

-- ============================================================== documents

private theorem isPrintable_quote {t : Text} (h : t.IsPrintable) :
    (Json.quote t).IsPrintable := by
  have hbody : Text.IsPrintable (t.flatMap Json.escapeChar) := by
    intro c hc
    obtain ⟨d, hd, hcd⟩ := List.mem_flatMap.1 hc
    have hprintable := h d hd
    rcases escapeChar_of_printable hprintable with ⟨-, he⟩ | ⟨-, he⟩
    · rw [he] at hcd
      rcases List.mem_cons.1 hcd with rfl | hcd
      · decide
      · exact List.mem_singleton.1 hcd ▸ hprintable
    · rw [he] at hcd
      exact List.mem_singleton.1 hcd ▸ hprintable
  intro c hc
  rcases List.mem_append.1 hc with hc | hc
  · rcases List.mem_cons.1 hc with rfl | hc
    · decide
    · exact hbody c hc
  · obtain rfl := List.mem_singleton.1 hc
    decide

mutual

/-- A value in print is printable. -/
theorem isPrintable_compact : ∀ v : Value, Common v →
    Text.IsPrintable v.compact
  | .null, _ => by decide
  | .bool true, _ => by decide
  | .bool false, _ => by decide
  | .number w, h => fun c hc => printable_of_isAlphanum (h.2 c hc)
  | .string t, h => isPrintable_quote h
  | .array [], _ => by decide
  | .array (v :: vs), h => by
      simp only [Text.IsPrintable, Value.compact, List.forall_mem_cons,
        List.forall_mem_append]
      exact ⟨by decide, ⟨isPrintable_compact v h.1,
        isPrintable_compactItems vs h.2⟩, by simp⟩
  | .object [], _ => by decide
  | .object ((k, v) :: ms), h => by
      simp only [Text.IsPrintable, Value.compact, List.forall_mem_cons,
        List.forall_mem_append]
      exact ⟨by decide, ⟨⟨isPrintable_quote h.1.1, by decide,
        isPrintable_compact v h.2.1⟩,
        isPrintable_compactMembers ms h.2.2⟩, by simp⟩

theorem isPrintable_compactItems : ∀ vs : List Value,
    Value.AllItems IsWord Text.IsPrintable IsShort vs →
    Text.IsPrintable (Value.compactItems vs)
  | [], _ => by decide
  | v :: vs, h => by
      simp only [Text.IsPrintable, Value.compactItems,
        List.forall_mem_cons, List.forall_mem_append]
      exact ⟨by decide, isPrintable_compact v h.1,
        isPrintable_compactItems vs h.2⟩

theorem isPrintable_compactMembers : ∀ ms : List (Text × Value),
    Value.AllMembers IsWord Text.IsPrintable IsShort ms →
    Text.IsPrintable (Value.compactMembers ms)
  | [], _ => by decide
  | (k, v) :: ms, h => by
      simp only [Text.IsPrintable, Value.compactMembers,
        List.forall_mem_cons, List.forall_mem_append]
      exact ⟨by decide, ⟨isPrintable_quote h.1.1, by decide,
        isPrintable_compact v h.2.1⟩, isPrintable_compactMembers ms h.2.2⟩

end

private theorem isAllowed_of_printable {c : Char}
    (h : 0x20 ≤ c.toNat ∧ c.toNat ≤ 0x7E) : isAllowed c = true := by
  simp [isAllowed, h]

/-- There is no break to unify in a printable text. -/
theorem unifyBreaks_of_isPrintable {t : Text} (h : t.IsPrintable) :
    unifyBreaks t = t := by
  induction t with
  | nil => rfl
  | cons c t ih =>
      have hc := h c (List.mem_cons_self ..)
      have hreturn : c ≠ '\r' := by
        rintro rfl
        exact absurd hc.1 (by decide)
      have hother : c.toNat ≠ 0x85 := by omega
      rw [unifyBreaks, ih fun d hd => h d (List.mem_cons_of_mem _ hd),
        if_neg (fun hor => hor.elim hreturn hother)]
      intro u heq
      exact absurd heq hreturn

/-- The print of an object is read as its node, to the end. -/
theorem ofText_compact {ms : List (Text × Value)}
    (h : Common (.object ms)) :
    Document.ofText (Value.object ms).compact
      = ⟨ofValue (.object ms), true⟩ := by
  have hprintable := isPrintable_compact _ h
  have htokens : tokens (Value.object ms).compact
      = valueTokens (.object ms) ++ [.streamEnd] := by
    -- No character of the print is refused, and none ends a line.
    have hallowed : (Value.object ms).compact.all isAllowed = true :=
      List.all_eq_true.2 fun c hc => isAllowed_of_printable (hprintable c hc)
    have hleads := @leads_object ms h 0 true [] []
    rw [List.append_nil, List.nil_append] at hleads
    unfold tokens
    rw [if_pos hallowed, unifyBreaks_of_isPrintable hprintable]
    exact Scanner.run_of_leads hleads
  unfold Document.ofText
  rw [htokens, ofTokens_value _ _ opens_start]
  rfl

end Yaml
end FilterQuery
