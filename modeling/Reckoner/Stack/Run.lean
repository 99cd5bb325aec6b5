import Reckoner.Stack.Basic
import Reckoner.Text.Quoted
import Reckoner.Decimal.Numeral

/-!
# Runs of a stack

A run is a list of commands carried out in order from the empty stack.  Every command
has a reply, and a command that fails leaves the stack as it was.
-/

namespace Reckoner
namespace Stack

variable {α : Type}

inductive Command (α : Type) where
  | push (item : α)
  | pop
  | peek
  | size
  | holdsAny
  | contents
  | describe
deriving DecidableEq

inductive Reply (α : Type) where
  | done
  | item (a : α)
  | count (n : Nat)
  | flag (b : Bool)
  | contents (items : List α)
  | text (s : String)
  | failed (cause : Underflow)
deriving DecidableEq

/-- The items from bottom to top, each written by `write`. -/
def describe (write : α → String) (s : Stack α) : String :=
  "Stack([" ++ ", ".intercalate (s.toList.map write) ++ "])"

/-- The stack after a command, and the reply. -/
def step (write : α → String) (s : Stack α) : Command α → Stack α × Reply α
  | .push a => (s.push a, .done)
  | .pop =>
    match s.pop? with
    | some (a, rest) => (rest, .item a)
    | none => (s, .failed .pop)
  | .peek =>
    match s.peek? with
    | some a => (s, .item a)
    | none => (s, .failed .peek)
  | .size => (s, .count s.size)
  | .holdsAny => (s, .flag !s.isEmpty)
  | .contents => (s, .contents s.toList)
  | .describe => (s, .text (s.describe write))

/-- The replies of a run, each with the size of the stack after it. -/
def replies (write : α → String) : Stack α → List (Command α) → List (Reply α × Nat)
  | _, [] => []
  | s, command :: rest =>
    let (next, reply) := s.step write command
    (reply, next.size) :: replies write next rest

/-- The stack that a run leaves. -/
def after (write : α → String) (s : Stack α) (commands : List (Command α)) : Stack α :=
  commands.foldl (fun t command ↦ (t.step write command).1) s

/-- An item that is text or a whole number. -/
inductive Item where
  | text (s : String)
  | whole (n : Int)
deriving DecidableEq

/-- Text is quoted, so that `1` and `'1'` differ. -/
def Item.write : Item → String
  | text s => Text.quote s
  | whole n => String.ofList (wholeText n)

end Stack
end Reckoner
