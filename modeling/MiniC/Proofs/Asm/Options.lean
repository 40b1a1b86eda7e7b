import MiniC.Asm.Options

/-!
# The options that a text describes

A text of options is a record in which every field may be left out.  The options that it
describes have in each field what the record gives, and the default where it gives nothing
(`describes_of_read?`).
-/

namespace MiniC

namespace Json.Value

/-- What a record gives for a field, which has a name in an object and a place in an array. -/
def given? (index : Nat) (name : String) : Value → Option Value
  | object members => members.lookup (some name)
  | array items => items[index]?
  | _ => none

theorem fields?_eq_some {names : List String} {value : Value} {fields : List (Option Value)}
    (h : value.fields? names = some fields) :
    fields.length = names.length ∧
      ∀ index name, names[index]? = some name →
        fields[index]? = some (value.given? index name) := by
  -- a field stands at its place in an array and under its name in an object
  cases value with
  | array items =>
      rw [fields?] at h
      split at h
      next =>
        cases h
        refine ⟨by simp, ?_⟩
        intro index name hname
        have hindex : index < names.length := (List.getElem?_eq_some_iff.mp hname).1
        simp [hindex, given?]
      next => cases h
  | object members =>
      rw [fields?, members?] at h
      · split at h
        next =>
          cases h
          refine ⟨by simp, ?_⟩
          intro index name hname
          rw [List.getElem?_map, hname]
          rfl
        next => cases h
      · rintro items ⟨⟩
  | null | bool | number | string => cases h

end Json.Value

namespace Asm.Options

open Json (Value)

/-- A field has what a record gives for it, or the default if the record gives nothing. -/
def Gives {α : Type} (record : Value) (index : Nat) (name : String) (read : Value → Option α)
    (absent chosen : α) : Prop :=
  match record.given? index name with
  | none => chosen = absent
  | some value => read value = some chosen

/-- A record describes options: field by field, with the defaults of the fields that it leaves
out. -/
structure Describes (record : Value) (options : Options) : Prop where
  processor : Gives record 0 "processor" Value.text? ".386" options.processor
  memoryModel : Gives record 1 "memory_model" Value.text? "flat, stdcall" options.memoryModel
  stackSize : Gives record 2 "stack_size" Value.uint32? 4096 options.stackSize
  entryPoint : Gives record 3 "entry_point" Value.text? "main" options.entryPoint
  indent : Gives record 4 "indent" (indentOfJson? (Value.nestingLimit - 1)) .tabs
    options.style.indent
  ending : Gives record 5 "line_ending" (endingOfJson? (Value.nestingLimit - 1)) .lf
    options.style.ending

theorem gives_of_field? {α : Type} {record : Value} {index : Nat} {name : String}
    {read : Value → Option α} {absent chosen : α} {found : Option Value}
    (hfound : some found = some (record.given? index name))
    (h : field? absent read found = some chosen) :
    Gives record index name read absent chosen := by
  cases hfound
  rw [Gives]
  cases hgiven : record.given? index name with
  | none =>
      rw [hgiven] at h
      exact (Option.some.inj h).symm
  | some value =>
      rw [hgiven] at h
      exact h

/-- The options of a text are those that the record in it describes. -/
theorem describes_of_read? {text : String} {options : Options} (h : read? text = some options) :
    ∃ record, Value.read? text = some record ∧ Describes record options := by
  obtain ⟨record, hrecord, hoptions⟩ := Option.bind_eq_some_iff.mp h
  refine ⟨record, hrecord, ?_⟩
  obtain ⟨fields, hfields, hoptions⟩ := Option.bind_eq_some_iff.mp hoptions
  obtain ⟨hlength, hgiven⟩ := Value.fields?_eq_some hfields
  match fields, hlength with
  | [processor, memoryModel, stackSize, entryPoint, indent, ending], _ =>
      simp only [Option.bind_eq_bind, Option.bind_eq_some_iff] at hoptions
      obtain ⟨first, hfirst, second, hsecond, third, hthird, fourth, hfourth, fifth, hfifth, sixth,
        hsixth, hoptions⟩ := hoptions
      cases hoptions
      exact
        { processor := gives_of_field? (hgiven 0 _ rfl) hfirst
          memoryModel := gives_of_field? (hgiven 1 _ rfl) hsecond
          stackSize := gives_of_field? (hgiven 2 _ rfl) hthird
          entryPoint := gives_of_field? (hgiven 3 _ rfl) hfourth
          indent := gives_of_field? (hgiven 4 _ rfl) hfifth
          ending := gives_of_field? (hgiven 5 _ rfl) hsixth }

end Asm.Options

end MiniC
