import Reckoner.Text.Quoted
import Reckoner.Text.DecimalDigit

/-!
# Command line arguments

Arguments are expressions or options.  An argument that begins with a hyphen is an
option, unless it is a lone hyphen, reads as a negative number, or holds a space and
begins like no option.  The first argument `--` ends the options and is dropped.  The
expressions have to stand together: one that an option parts from the first of them is
not recognized.
-/

namespace Reckoner
namespace CommandLine

inductive Flag where
  | help
  | verbose
deriving DecidableEq

namespace Flag

def letter : Flag → Char
  | help => 'h'
  | verbose => 'v'

def longName : Flag → String
  | help => "--help"
  | verbose => "--verbose"

def all : List Flag :=
  [help, verbose]

def ofLetter? (c : Char) : Option Flag :=
  all.find? fun flag ↦ flag.letter == c

/-- How a message names the flag. -/
def display (flag : Flag) : String :=
  String.ofList ['-', flag.letter] ++ "/" ++ flag.longName

end Flag

/-- What is wrong with the arguments. -/
inductive UsageError where
  | ambiguous (argument : String) (candidates : List Flag)
  | ignoredValue (flag : Flag) (value : String)
  | unrecognized (arguments : List String)
  | noExpressions
deriving DecidableEq

/-- What is said about it.  Where the expressions are missing this is the first line alone:
the lines after it are worded by the library that checks the fields, with its version in
them. -/
def UsageError.message : UsageError → String
  | ambiguous argument candidates =>
    "ambiguous option: " ++ argument ++ " could match " ++
      ", ".intercalate (candidates.map Flag.longName)
  | ignoredValue flag value =>
    "argument " ++ flag.display ++ ": ignored explicit argument " ++ Text.quote value
  | unrecognized arguments => "unrecognized arguments: " ++ " ".intercalate arguments
  | noExpressions => "1 validation error for CliArgs"

/-- How one argument in front of `--` is read. -/
inductive Reading where
  /-- An expression. -/
  | plain (text : String)
  /-- One flag or several in one argument, in order. -/
  | flags (flags : List Flag)
  /-- A flag with a value, which no flag takes. -/
  | withValue (flag : Flag) (value : String)
  /-- An option of which nothing is known. -/
  | unknown (text : String)
deriving DecidableEq

/-- The flag `flag` followed in its argument by `rest`, all letters of flags or else a
value of the last flag. -/
def readCluster (flag : Flag) (before : List Flag) : List Char → Reading
  | [] => .flags (before ++ [flag])
  | c :: rest =>
    match Flag.ofLetter? c with
    | some next => readCluster next (before ++ [flag]) rest
    | none => .withValue flag (String.ofList (c :: rest))

/-- The part of a text before its first `=`, and the part after it if there is one. -/
def splitValue (text : List Char) : List Char × Option (List Char) :=
  match text.dropWhile (· != '=') with
  | [] => (text, none)
  | _ :: value => (text.takeWhile (· != '='), some value)

/-- The flags whose long name begins with `name`; a full name is the beginning of no
other. -/
def longMatches (name : List Char) : List Flag :=
  Flag.all.filter fun flag ↦ name.isPrefixOf flag.longName.toList

/-- Whether `digits` are one decimal digit or more. -/
def isDigits (digits : List Char) : Bool :=
  !digits.isEmpty && digits.all Text.isDecimalDigit

/-- Whether `text` is a hyphen and digits, with perhaps a point before the last of them.
One line break may follow. -/
def isNegativeNumber (text : List Char) : Bool :=
  match if text.getLast? = some '\n' then text.dropLast else text with
  | '-' :: rest =>
    isDigits rest ||
      match rest.dropWhile (· != '.') with
      | _ :: fraction => (rest.takeWhile (· != '.')).all Text.isDecimalDigit && isDigits fraction
      | [] => false
  | _ => false

/-- The reading of an argument that begins with a hyphen but as no option. -/
def readOther (text : List Char) : Reading :=
  if isNegativeNumber text || text.contains ' ' then .plain (String.ofList text)
  else .unknown (String.ofList text)

/-- The reading of an argument in front of `--`.  A long name may be cut short if it
stays the only match; a short one may be followed by others, at once or after an `=`. -/
def readArgument (argument : String) : Except UsageError Reading :=
  match argument.toList with
  | '-' :: '-' :: rest =>
    let (name, value?) := splitValue ('-' :: '-' :: rest)
    match longMatches name, value? with
    | [flag], none => .ok (.flags [flag])
    | [flag], some value => .ok (.withValue flag (String.ofList value))
    | [], _ => .ok (readOther argument.toList)
    | candidates, _ => .error (.ambiguous argument candidates)
  | '-' :: c :: rest =>
    match Flag.ofLetter? c, rest with
    | some flag, ['='] => .ok (.withValue flag "")
    | some flag, '=' :: more => .ok (readCluster flag [] more)
    | some flag, more => .ok (readCluster flag [] more)
    | none, _ => .ok (readOther argument.toList)
  | _ => .ok (.plain argument)

/-- The readings of all arguments.  Everything from `--` on is plain. -/
def readAll : List String → Except UsageError (List Reading)
  | [] => .ok []
  | argument :: rest =>
    if argument = "--" then .ok ((argument :: rest).map .plain)
    else do
      let reading ← readArgument argument
      let readings ← readAll rest
      return reading :: readings

/-- What has been gathered so far. -/
structure Gathered where
  verbose : Bool
  /-- The block of expressions. -/
  block : List String
  /-- Whether the block has ended. -/
  closed : Bool
  /-- What was not recognized. -/
  extras : List String
deriving DecidableEq

namespace Gathered

def start : Gathered := ⟨false, [], false, []⟩

/-- An option ends the block of expressions once it has begun. -/
def closeBlock (g : Gathered) : Gathered :=
  { g with closed := g.closed || !g.block.isEmpty }

def addPlain (g : Gathered) (text : String) : Gathered :=
  if g.closed then { g with extras := g.extras ++ [text] }
  else { g with block := g.block ++ [text] }

def addUnknown (g : Gathered) (text : String) : Gathered :=
  { g.closeBlock with extras := g.extras ++ [text] }

def addVerbose (g : Gathered) : Gathered :=
  { g.closeBlock with verbose := true }

end Gathered

/-- The expressions to evaluate, at least one, and whether to report every detail. -/
structure Arguments where
  expressions : List String
  verbose : Bool
deriving DecidableEq

/-- What a command line asks for. -/
inductive Request where
  | run (arguments : Arguments)
  | help
  | refuse (cause : UsageError)
deriving DecidableEq

/-- What is asked for once all arguments have been gathered. -/
def Gathered.request (g : Gathered) : Request :=
  let expressions := g.block.erase "--"
  if g.extras ≠ [] then .refuse (.unrecognized g.extras)
  else if expressions = [] then .refuse .noExpressions
  else .run ⟨expressions, g.verbose⟩

/-- The readings are taken in order; the first one that asks for help or has a value
that no flag takes decides alone. -/
def gather (g : Gathered) : List Reading → Request
  | [] => g.request
  | .plain text :: rest => gather (g.addPlain text) rest
  | .unknown text :: rest => gather (g.addUnknown text) rest
  | .withValue flag value :: _ => .refuse (.ignoredValue flag value)
  | .flags flags :: rest => if flags.contains .help then .help else gather g.addVerbose rest

def Request.ofArguments (arguments : List String) : Request :=
  match readAll arguments with
  | .ok readings => gather .start readings
  | .error cause => .refuse cause

end CommandLine
end Reckoner
