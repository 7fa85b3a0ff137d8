/-
The indented print of a JSON value is a text of the value
(`written_pretty`), at whatever depth it stands and whatever is in its
strings, as long as its numbers are spelled as the format spells them. All
that it has beyond the shortest print is white space at places where the
format allows any: a line break with its indentation before an item, before
a key and before a closing bracket, and one space after a colon.

In the print those line breaks belong to the collection, in the format they
belong to the items. So the print of a list follows here the text of its
first item, white space included, and the line break before the closing
bracket is handed down to the last item.
-/
import FilterQuery.Proofs.Json.Printing

namespace FilterQuery
namespace Json

/-- A line break and its indentation are white space. -/
private theorem isSpace_newLine (depth : Nat) : IsSpace (newLine depth) := by
  intro c hc
  rcases List.mem_cons.1 hc with rfl | hc
  · decide
  · obtain ⟨-, rfl⟩ := List.mem_replicate.1 hc
    decide

private theorem isSpace_blank : IsSpace [' '] := by
  intro c hc
  obtain rfl := List.mem_singleton.1 hc
  decide

/-- A member in the indented print: white space before its key and after its
value, and one space after the colon. -/
theorem Written.spacedMember {v : Tree} {s t e : Text} (hs : IsSpace s)
    (k : Text) (h : Written (.value v) t) (he : IsSpace e) :
    Written (.member (some k) v)
      (s ++ (quote k ++ ':' :: ' ' :: (t ++ e))) :=
  .member hs (isString_quote k) isSpace_nil (.padded isSpace_blank h he)

namespace Value

variable {isNumber isText isKey : Text → Prop}

mutual

/-- A value in the indented print is a text of the value. -/
theorem written_pretty (hnumber : ∀ w, isNumber w → IsNumeral w) :
    ∀ (v : Value) (depth : Nat), v.All isNumber isText isKey →
      Written (.value v.toTree) (v.pretty depth)
  | .null, _, _ => .null
  | .bool true, _, _ => .true
  | .bool false, _, _ => .false
  | .number w, _, h => .number (hnumber w h)
  | .string t, _, _ => .string (isString_quote t)
  | .array [], _, _ => .emptyArray isSpace_nil
  | .array (v :: vs), depth, h => by
      have hitems := written_prettyItems hnumber vs (depth + 1) h.2
        (isSpace_newLine (depth + 1))
        (written_pretty hnumber v (depth + 1) h.1) (isSpace_newLine depth)
      simpa only [toTree, itemTrees, pretty, List.append_assoc,
        List.cons_append] using Written.array hitems
  | .object [], _, _ => .emptyObject isSpace_nil
  | .object ((k, v) :: ms), depth, h => by
      have hmembers := written_prettyMembers hnumber ms (depth + 1) h.2.2
        (isSpace_newLine (depth + 1)) k
        (written_pretty hnumber v (depth + 1) h.2.1) (isSpace_newLine depth)
      simpa only [toTree, memberTrees, pretty, List.append_assoc,
        List.cons_append, List.nil_append] using Written.object hmembers

/-- Items in the indented print follow the text of the one before them, and
white space follows the last of them. -/
theorem written_prettyItems (hnumber : ∀ w, isNumber w → IsNumeral w) :
    ∀ (vs : List Value) (depth : Nat), AllItems isNumber isText isKey vs →
      ∀ {v : Tree} {s t e : Text}, IsSpace s → Written (.value v) t →
        IsSpace e →
        Written (.items (v :: itemTrees vs))
          (s ++ (t ++ (prettyItems depth vs ++ e)))
  | [], _, _, _, _, _, _, hs, hv, he => .item (.padded hs hv he)
  | w :: vs, depth, h, _, _, _, _, hs, hv, he => by
      have hitems := written_prettyItems hnumber vs depth h.2
        (isSpace_newLine depth) (written_pretty hnumber w depth h.1) he
      have hall := Written.items (.padded hs hv isSpace_nil) hitems
      simpa only [itemTrees, prettyItems, List.append_assoc,
        List.cons_append, List.nil_append] using hall

/-- Members in the indented print follow the text of the one before them,
and white space follows the last of them. -/
theorem written_prettyMembers
    (hnumber : ∀ w, isNumber w → IsNumeral w) :
    ∀ (ms : List (Text × Value)) (depth : Nat),
      AllMembers isNumber isText isKey ms →
      ∀ {v : Tree} {s t e : Text}, IsSpace s → ∀ k, Written (.value v) t →
        IsSpace e →
        Written (.members ((some k, v) :: memberTrees ms))
          (s ++ (quote k ++ ':' :: ' ' :: (t ++ (prettyMembers depth ms
            ++ e))))
  | [], _, _, _, _, _, _, hs, k, hv, he =>
      .lastMember (.spacedMember hs k hv he)
  | (l, w) :: ms, depth, h, _, _, _, _, hs, k, hv, he => by
      have hmembers := written_prettyMembers hnumber ms depth h.2.2
        (isSpace_newLine depth) l (written_pretty hnumber w depth h.2.1) he
      have hall := Written.members (.spacedMember hs k hv isSpace_nil)
        hmembers
      simpa only [memberTrees, prettyMembers, List.append_assoc,
        List.cons_append, List.nil_append] using hall

end

end Value

end Json
end FilterQuery
