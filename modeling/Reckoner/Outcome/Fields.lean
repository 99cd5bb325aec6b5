import Reckoner.Outcome.Basic
import Reckoner.Decimal.Reading

/-!
# Records from fields

An outcome or a request can also be put together from named fields whose values come
from outside.  Each field is read on its own and every problem is reported, in the order
in which the fields are declared; fields that are not declared are passed over.
-/

namespace Reckoner

/-- A value from outside.  Whole numbers are told apart from other numbers by how they
were written. -/
inductive Datum where
  | null
  | flag (b : Bool)
  | whole (n : Int)
  | number (x : Binary64)
  | text (s : String)
  | list (items : List Datum)
  | table (entries : List (String × Datum))
deriving Inhabited

/-- What can be wrong with a field. -/
inductive Problem where
  | missing
  | notText
  | notANumber
  | unreadableNumber
  | notAFlag
  | unreadableFlag
deriving DecidableEq

structure FieldProblem where
  field : String
  problem : Problem
deriving DecidableEq

/-- Named values; of several with one name the last counts. -/
abbrev Fields := List (String × Datum)

def Fields.find? (fields : Fields) (name : String) : Option Datum :=
  (fields.reverse.find? fun entry ↦ entry.1 == name).map Prod.snd

namespace Datum

def toText : Datum → Except Problem String
  | text s => .ok s
  | _ => .error .notText

/-- The number that a text denotes.  Around it white space is allowed, or else single
low lines between its characters. -/
def numberOfText (s : List Char) : Option Binary64 :=
  (Binary64.read? (Text.trim s)).or <|
    if s.head? = some '_' ∨ s.getLast? = some '_' ∨ (s.zip s.tail).contains ('_', '_') then none
    else Binary64.read? (s.filter (· != '_'))

/-- A number that has come out of rounding, unless it has overflowed. -/
def numberInRange : Binary64 → Except Problem Binary64
  | .infinity _ => .error .notANumber
  | x => .ok x

/-- Flags count as zero and one.  A whole number is rounded. -/
def toNumber : Datum → Except Problem Binary64
  | flag b => .ok (.ofBool b)
  | number x => .ok x
  | whole n => numberInRange (.ofInt n)
  | text s =>
    match numberOfText s.toList with
    | some x => .ok x
    | none => .error .unreadableNumber
  | _ => .error .notANumber

def falseNames : List String :=
  ["0", "off", "f", "false", "n", "no"]

def trueNames : List String :=
  ["1", "on", "t", "true", "y", "yes"]

def flagOfName (name : String) : Except Problem Bool :=
  if falseNames.contains name then .ok false
  else if trueNames.contains name then .ok true
  else .error .unreadableFlag

def flagOfWhole (n : Int) : Except Problem Bool :=
  if n = 0 then .ok false else if n = 1 then .ok true else .error .unreadableFlag

/-- The size from which on a number is no signed word of sixty-four bits. -/
def wordBound : Int :=
  twoTo 63

/-- Of the numbers only zero and one are flags; of text, certain names in any case.  A
whole number that is a word could have been a flag and has the wrong value; any other
number is of the wrong kind.  The least word is one only if it is written as a whole
number. -/
def toFlag : Datum → Except Problem Bool
  | flag b => .ok b
  | whole n =>
    if -wordBound ≤ n ∧ n < wordBound then flagOfWhole n else .error .notAFlag
  | number x =>
    match x.whole? with
    | some n => if -wordBound < n ∧ n < wordBound then flagOfWhole n else .error .notAFlag
    | none => .error .notAFlag
  | text s => flagOfName (String.ofList (s.toList.map Char.toLower))
  | _ => .error .notAFlag

end Datum

namespace Fields

/-- The field `name` read by `read`; without a default it may not be missing. -/
def read {α : Type} (fields : Fields) (name : String) (default? : Option α)
    (read : Datum → Except Problem α) : Except FieldProblem α :=
  match fields.find? name, default? with
  | some datum, _ => (read datum).mapError fun problem ↦ ⟨name, problem⟩
  | none, some value => .ok value
  | none, none => .error ⟨name, .missing⟩

end Fields

/-- The problem of a field that could not be read. -/
def problemOf {α : Type} : Except FieldProblem α → List FieldProblem
  | .ok _ => []
  | .error problem => [problem]

namespace Outcome

def ofFields (fields : Fields) : Except (List FieldProblem) Outcome :=
  let success := fields.read "success" none Datum.toFlag
  let value := fields.read "value" (some .zero) Datum.toNumber
  let message := fields.read "message" (some "") Datum.toText
  match success, value, message with
  | .ok success, .ok value, .ok message => .ok ⟨success, value, message⟩
  | _, _, _ => .error (problemOf success ++ problemOf value ++ problemOf message)

/-- A success whose value comes from outside. -/
def succeededWith (value : Datum) : Except (List FieldProblem) Outcome :=
  ofFields [("success", .flag true), ("value", value), ("message", .text "")]

/-- A failure whose message comes from outside. -/
def failedWith (message : Datum) : Except (List FieldProblem) Outcome :=
  ofFields [("success", .flag false), ("value", .number .zero), ("message", message)]

end Outcome

/-- The expression of a request. -/
def expressionOfFields (fields : Fields) : Except (List FieldProblem) String :=
  (fields.read "expression" none Datum.toText).mapError fun problem ↦ [problem]

end Reckoner
