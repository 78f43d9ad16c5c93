import InventorySearch.Proofs.Filter.Decomposition
import InventorySearch.Proofs.Filter.Faults

set_option autoImplicit false

/-!
# Where errors point

Every error of the parser names a fault that can be seen in the expression as it was
given, by its characters and the places of its brackets. Levels inside brackets are
well-bracketed, so a bracket without a match can only be met outside of all brackets,
where the level is the whole expression.
-/
namespace InventorySearch.Filter
open Text

variable {coerce : Coercer} {query : String}

/-- What an error says of the brackets of a level, from a place in it on. -/
inductive Unmatched (level : List Char) (offset : Nat) (text : List Char) : Error → Prop
  | opening {before after : List Char} (written : text = before ++ '(' :: after)
      (read : WellBracketed before) (unclosed : Unclosed after) :
      Unmatched level offset text (.unmatchedOpen (offset + byteLength before))
  | closing {before after : List Char} (written : text = before ++ ')' :: after)
      (read : WellBracketed before) :
      Unmatched level offset text (.strayClose (String.ofList level) (offset + byteLength before))

section
variable {level text : List Char} {offset : Nat} {e : Error}

theorem Unmatched.behind {done : List Char} (hdone : WellBracketed done)
    (h : Unmatched level (offset + byteLength done) text e) :
    Unmatched level offset (done ++ text) e := by
  cases h with
  | @opening before after written read unclosed =>
    rw [Nat.add_assoc, ← byteLength_append]
    exact .opening (by rw [written, List.append_assoc]) (hdone.append read) unclosed
  | @closing before after written read =>
    rw [Nat.add_assoc, ← byteLength_append]
    exact .closing (by rw [written, List.append_assoc]) (hdone.append read)

end

section
variable {offset : Nat}

end

end InventorySearch.Filter
