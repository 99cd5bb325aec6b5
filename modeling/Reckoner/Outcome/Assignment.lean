import Reckoner.Outcome.Fields

/-!
# Assigning to an outcome

An outcome is frozen: neither its fields nor any other name like theirs can be assigned.
Names that begin with a low line are private; assigning one is allowed and shows nowhere.
Four private names are about the outcome itself.  Its class takes only a class, which no
value from outside is.  Its table of fields takes only a table, which then stands in place
of the fields as it is.  The reference to it and the set of the fields it was given cannot
be assigned at all.
-/

namespace Reckoner

/-- Why an assignment fails, or leaves an outcome that cannot be shown. -/
inductive AssignmentError where
  | frozen (name : String)
  | notAClass (kind : String)
  | notATable (kind : String)
  | notWritable
  | noSetter
  | noAttribute (name : String)
deriving DecidableEq

def AssignmentError.message : AssignmentError → String
  | frozen _ => "Instance is frozen"
  | notAClass kind => "__class__ must be set to a class, not '" ++ kind ++ "' object"
  | notATable kind => "__dict__ must be set to a dictionary, not a '" ++ kind ++ "'"
  | notWritable => "attribute '__weakref__' of 'EvaluationOutcome' objects is not writable"
  | noSetter => "property '__fields_set__' of 'EvaluationOutcome' object has no setter"
  | noAttribute name => "'EvaluationOutcome' object has no attribute " ++ Text.quote name

/-- How a message names the kind of a value. -/
def Datum.kind : Datum → String
  | null => "NoneType"
  | flag _ => "bool"
  | whole _ => "int"
  | number _ => "float"
  | text _ => "str"
  | list _ => "list"
  | table _ => "dict"

namespace Outcome

/-- What an outcome shows once it has been assigned to: its fields need no longer hold
values of their own kinds. -/
structure Contents where
  success : Datum
  value : Datum
  message : Datum

def contents (o : Outcome) : Contents :=
  ⟨.flag o.success, .number o.value, .text o.message⟩

/-- What a table holds under a name. -/
def Contents.entry (entries : Fields) (name : String) : Except AssignmentError Datum :=
  match entries.find? name with
  | some datum => .ok datum
  | none => .error (.noAttribute name)

/-- What is shown of a table that stands in place of the fields. -/
def Contents.ofTable (entries : Fields) : Except AssignmentError Contents := do
  return ⟨← entry entries "success", ← entry entries "value", ← entry entries "message"⟩

/-- What is shown after `name` has been assigned `value`. -/
def assign (o : Outcome) (name : String) (value : Datum) : Except AssignmentError Contents :=
  match name, value with
  | "__class__", _ => .error (.notAClass value.kind)
  | "__dict__", .table entries => Contents.ofTable entries
  | "__dict__", _ => .error (.notATable value.kind)
  | "__weakref__", _ => .error .notWritable
  | "__fields_set__", _ => .error .noSetter
  | _, _ => if name.toList.head? = some '_' then .ok o.contents else .error (.frozen name)

end Outcome
end Reckoner
