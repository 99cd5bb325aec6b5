/-!
# Log levels

A level is set by its name, in any case.  A name that means nothing is the same as no
name; but the two other words of the vocabulary of logging, the one for the basic format
of a line and the one for the format styles, name something that is no level and are
refused.
-/

namespace Reckoner
namespace Log

inductive Level where
  | notSet
  | debug
  | info
  | warning
  | error
  | critical
deriving DecidableEq

namespace Level

def number : Level → Nat
  | notSet => 0
  | debug => 10
  | info => 20
  | warning => 30
  | error => 40
  | critical => 50

def name : Level → String
  | notSet => "NOTSET"
  | debug => "DEBUG"
  | info => "INFO"
  | warning => "WARNING"
  | error => "ERROR"
  | critical => "CRITICAL"

/-- Every name of every level; two levels have a second one. -/
def names : List (String × Level) :=
  [("NOTSET", notSet), ("DEBUG", debug), ("INFO", info), ("WARNING", warning),
    ("WARN", warning), ("ERROR", error), ("CRITICAL", critical), ("FATAL", critical)]

def ofName? (name : String) : Option Level :=
  names.lookup name

@[simp] theorem ofName?_name (l : Level) : ofName? l.name = some l := by
  cases l <;> decide

end Level

/-- Something named in place of a level. -/
inductive Refusal where
  | basicFormat
  | formatStyles
deriving DecidableEq

def Refusal.ofName? (name : String) : Option Refusal :=
  if name = "BASIC_FORMAT" then some basicFormat
  else if name = "_STYLES" then some formatStyles
  else none

/-- The format is text that names no level; the table of styles is not even text. -/
def Refusal.message : Refusal → String
  | basicFormat => "Unknown level: '%(levelname)s:%(name)s:%(message)s'"
  | formatStyles =>
    "Level not an integer or a valid string: \x7b'%': (<class 'logging.PercentStyle'>, " ++
      "'%(levelname)s:%(name)s:%(message)s'), '\x7b': (<class 'logging.StrFormatStyle'>, " ++
      "'\x7blevelname\x7d:\x7bname\x7d:\x7bmessage\x7d'), " ++
      "'$': (<class 'logging.StringTemplateStyle'>, " ++
      "'$\x7blevelname\x7d:$\x7bname\x7d:$\x7bmessage\x7d')\x7d"

/-- The capitals of a character.  Beside the ASCII letters these are the few others
whose capitals are ASCII; the rest stay as they are, for no name holds them. -/
def capitals (c : Char) : List Char :=
  match c with
  | 'ı' => ['I']
  | 'ſ' => ['S']
  | 'ß' => ['S', 'S']
  | 'ﬀ' => ['F', 'F']
  | 'ﬁ' => ['F', 'I']
  | 'ﬂ' => ['F', 'L']
  | 'ﬃ' => ['F', 'F', 'I']
  | 'ﬄ' => ['F', 'F', 'L']
  | 'ﬅ' | 'ﬆ' => ['S', 'T']
  | _ => [c.toUpper]

def capitalized (name : String) : String :=
  String.ofList (name.toList.flatMap capitals)

/-- The level that a name in any case sets, `info` if it means nothing. -/
def Level.ofSetting (name : String) : Except Refusal Level :=
  let name := capitalized name
  match Level.ofName? name, Refusal.ofName? name with
  | some level, _ => .ok level
  | none, some refusal => .error refusal
  | none, none => .ok .info

end Log
end Reckoner
