import InventorySearch.Proofs.Sql.Formula
import InventorySearch.Proofs.Store.Rows

set_option autoImplicit false

/-!
# Conditions fit their tables

Every column that a plan mentions is one of the table whose rows it is asked of,
and the columns that links go by have a number in every row. Both are read off
the five schemas.
-/
namespace InventorySearch.Search
open InventorySearch.Filter Store

def HasColumn (table : Table) (column : String) : Prop := ∃ c ∈ table.columns, c.name = column

instance (table : Table) (column : String) : Decidable (HasColumn table column) :=
  inferInstanceAs (Decidable (∃ c ∈ table.columns, c.name = column))

theorem HasColumn.of_number {table : Table} {column : String} (h : table.HasNumber column) :
    HasColumn table column :=
  ⟨_, h.2, rfl⟩

namespace Source

def table : Source → Table
  | .owned table _ => table
  | .linked _ _ _ table _ => table

def Fits : Source → Prop
  | .owned table owner => table.HasNumber owner
  | .linked link owner member table column =>
    link.HasNumber owner ∧ link.HasNumber member ∧ table.HasNumber column

instance : (source : Source) → Decidable source.Fits
  | .owned table owner => inferInstanceAs (Decidable (table.HasNumber owner))
  | .linked .. => inferInstanceAs (Decidable (_ ∧ _ ∧ _))

end Source

namespace Schema

def FieldFits (table : Table) (f : Field FieldKind) : Prop :=
  match f.kind with
  | .scalar _ => HasColumn table f.column
  | .membership link owner member => link.HasNumber owner ∧ link.HasNumber member

instance (table : Table) : (f : Field FieldKind) → Decidable (FieldFits table f)
  | ⟨_, column, .scalar _⟩ => inferInstanceAs (Decidable (HasColumn table column))
  | ⟨_, _, .membership ..⟩ => inferInstanceAs (Decidable (_ ∧ _))

structure Fits (schema : Schema) : Prop where
  key : schema.table.HasNumber schema.key
  fields : ∀ f ∈ schema.fields, FieldFits schema.table f
  sources : ∀ a ∈ schema.associations, a.source.Fits
  children : ∀ a ∈ schema.associations, ∀ f ∈ a.fields, HasColumn a.source.table f.column

end Schema

theorem Entity.schema_fits (entity : Entity) : entity.schema.Fits := by
  cases entity <;> exact ⟨by decide, by decide, by decide, by decide⟩

def Test.column : Test → String
  | .isNull column => column
  | .isNotNull column => column
  | .relation column _ _ => column

/-- Whether a condition on the rows of a table asks for columns that are there. -/
inductive Condition.Fits (table : Table) : Condition → Prop
  | always : Fits table .always
  | test {t : Test} (h : HasColumn table t.column) : Fits table (.test t)
  | membership {inside : Bool} {key : String} {link : Table} {owner : String}
      {asked : Option (String × Literal)} (hkey : table.HasNumber key)
      (howner : link.HasNumber owner) (hasked : ∀ a ∈ asked, link.HasNumber a.1) :
      Fits table (.membership inside key link owner asked)
  | related {orNone : Bool} {source : Source} {key : String} {tests : List Test}
      (hkey : table.HasNumber key) (hsource : source.Fits) (hne : tests ≠ [])
      (htests : ∀ t ∈ tests, HasColumn source.table t.column) :
      Fits table (.related orNone source key tests)
  | all {parts : List Condition} (hne : parts ≠ []) (hparts : ∀ c ∈ parts, Fits table c) :
      Fits table (.all parts)
  | either {left right : Condition} (hleft : Fits table left) (hright : Fits table right) :
      Fits table (.either left right)

/-! ## Texts and parameters -/

namespace Condition

theorem texts_eq_map (cs : List Condition) : texts cs = cs.map text := by
  induction cs with
  | nil => rfl
  | cons c cs ih => rw [texts, ih, List.map_cons]

theorem literalsOf_eq_flatMap (cs : List Condition) : literalsOf cs = cs.flatMap literals := by
  induction cs with
  | nil => rfl
  | cons c cs ih => rw [literalsOf, ih, List.flatMap_cons]

theorem parameters_related (orNone : Bool) (source : Source) (key : String) (tests : List Test) :
    (Condition.related orNone source key tests).parameters =
      tests.flatMap fun t => t.literals.map Literal.parameter := by
  rw [parameters, literals, List.map_flatMap]

theorem parameters_all (parts : List Condition) :
    (Condition.all parts).parameters = parts.flatMap parameters := by
  rw [parameters, literals, literalsOf_eq_flatMap, List.map_flatMap]
  rfl

theorem parameters_either (left right : Condition) :
    (Condition.either left right).parameters = left.parameters ++ right.parameters := by
  rw [parameters, literals, List.map_append]
  rfl

end Condition

/-!
## Names

The names of tables and columns are single words, none of them a keyword or a
numeral, so that in a text they can be taken for nothing else.
-/

open Sql

def keywords : List String :=
  ["SELECT", "FROM", "WHERE", "JOIN", "ON", "AND", "OR", "NOT", "EXISTS", "IN", "IS", "CAST", "AS"]

def isName (s : String) : Bool := isWord s && !keywords.contains s && !s.toList.all Char.isDigit

theorem isName_of_hasColumn {table : Table} {column : String} (h : HasColumn table column) :
    isName column = true := by
  have hall : ∀ c ∈ table.columns, isName c.name = true := by
    cases table <;> decide +kernel
  obtain ⟨c, hc, rfl⟩ := h
  exact hall c hc

theorem isName_name (table : Table) : isName table.name = true := by
  cases table <;> decide +kernel

theorem ofName?_name (table : Table) : Table.ofName? table.name = some table := by
  cases table <;> decide +kernel

theorem isWord_of_isName {s : String} (h : isName s = true) : isWord s = true := by
  simp only [isName, Bool.and_eq_true] at h
  exact h.1.1

theorem ne_of_isName {s w : String} (h : isName s = true) (hw : w ∈ keywords) : s ≠ w := by
  rintro rfl
  simp [isName, hw] at h

theorem toString_eq (s : String) : toString s = s := rfl

theorem isName_of_hasNumber {table : Table} {column : String} (h : table.HasNumber column) :
    isName column = true :=
  isName_of_hasColumn (.of_number h)

/-! ### Names hold no question mark -/

theorem not_mem_of_isName {s : String} (h : isName s = true) : '?' ∉ s.toList := by
  have hword := isWord_of_isName h
  rw [isWord, Bool.and_eq_true] at hword
  intro hmem
  exact absurd (List.all_eq_true.mp hword.2 '?' hmem) (by decide)

theorem not_mem_of_hasColumn {table : Table} {column : String} (h : HasColumn table column) :
    '?' ∉ column.toList :=
  not_mem_of_isName (isName_of_hasColumn h)

theorem not_mem_of_hasNumber {table : Table} {column : String} (h : table.HasNumber column) :
    '?' ∉ column.toList :=
  not_mem_of_isName (isName_of_hasNumber h)

end InventorySearch.Search
