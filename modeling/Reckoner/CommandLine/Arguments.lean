import Reckoner.Text.DecimalDigit
import Reckoner.Text.Quoted

/-!
# Arguments

What each argument of the command line is taken for. A flag is a letter after one hyphen, and then
more letters may follow in the same argument, or the beginning of a word after two hyphens. An
argument that starts with a hyphen is an expression all the same if it is the hyphen alone or a
negative number, or if it has a space in it and is no flag. The first `--` is a mark, after which
every argument is an expression.

The rules for arguments have come in two releases, which differ in what may follow the letter of a
flag in the same argument. Everything here is given for both of them.
-/

namespace Reckoner

inductive Flag
  | help
  | verbose
deriving DecidableEq, Repr

namespace Flag

def all : List Flag :=
  [help, verbose]

def letter : Flag → Char
  | help => 'h'
  | verbose => 'v'

def word : Flag → String
  | help => "help"
  | verbose => "verbose"

def ofLetter? (c : Char) : Option Flag :=
  all.find? fun flag => flag.letter == c

def longForm (flag : Flag) : String :=
  "--" ++ flag.word

/-- Both forms of the flag, as a message names it. -/
def name (flag : Flag) : String :=
  "-" ++ String.singleton flag.letter ++ "/" ++ flag.longForm

end Flag

/-- Why a command line is refused. -/
inductive UsageError
  /-- A word that several flags begin with. -/
  | ambiguous (argument : String) (candidates : List Flag)
  /-- A value, or what is taken for one, at a flag that takes none. -/
  | valueGiven (flag : Flag) (value : List Char)
  | unrecognized (arguments : List String)
deriving DecidableEq, Repr

def UsageError.message : UsageError → String
  | ambiguous argument candidates =>
    "ambiguous option: " ++ argument ++ " could match "
      ++ ", ".intercalate (candidates.map Flag.longForm)
  | valueGiven flag value =>
    "argument " ++ flag.name ++ ": ignored explicit argument " ++ String.ofList (quoted value)
  | unrecognized arguments => "unrecognized arguments: " ++ " ".intercalate arguments

/-- The releases of the rules for arguments. -/
inductive Release
  /-- An equals sign may stand between the first letter and the next ones. From the first character on
  that is no flag's letter, the rest is a value. -/
  | earlier
  /-- An equals sign or a hyphen begins a value. From any other character on that is no flag's letter,
  the rest is not understood, which does not keep the flags before it from acting. -/
  | later
deriving DecidableEq, Repr

/-- What an argument is taken for. -/
inductive Role
  | expression
  /-- The first `--`. -/
  | mark
  | flags (given : List Flag)
  /-- Flags, and then letters that are not understood. -/
  | flagsBefore (given : List Flag) (letters : List Char)
  /-- A flag with a value, or with letters that are taken for one. -/
  | valued (flag : Flag) (value : List Char)
  /-- The beginning of several flags' words. -/
  | ambiguous (candidates : List Flag)
  | unknown
deriving DecidableEq, Repr

namespace Role

/-- Whether the text after a hyphen makes a negative number; one line end may follow it. -/
def isNegativeNumber (afterHyphen : List Char) : Bool :=
  let body := if afterHyphen.getLast? = some '\n' then afterHyphen.dropLast else afterHyphen
  let whole := body.takeWhile isDecimalDigit
  match body.dropWhile isDecimalDigit with
  | [] => !whole.isEmpty
  | '.' :: fraction => !fraction.isEmpty && fraction.all isDecimalDigit
  | _ => false

/-- The role of an argument that starts with a hyphen and is no flag. -/
def withoutFlag (afterHyphen : List Char) : Role :=
  if afterHyphen.isEmpty || isNegativeNumber afterHyphen || afterHyphen.contains ' ' then expression
  else unknown

/-- The role of flags, the last one of which is followed by a character that is no flag's letter. -/
def endingIn (release : Release) (given : List Flag) (last : Flag) (c : Char) (rest : List Char) : Role :=
  match release with
  | .earlier => valued last (c :: rest)
  | .later =>
    if c = '=' then valued last rest
    else if c = '-' then valued last (c :: rest)
    else flagsBefore given (c :: rest)

/-- Letters after a flag are flags as well, up to one that is not. -/
def cluster (release : Release) (before : List Flag) (flag : Flag) : List Char → Role
  | [] => flags (before ++ [flag])
  | c :: rest => match Flag.ofLetter? c with
    | none => endingIn release (before ++ [flag]) flag c rest
    | some next => cluster release (before ++ [flag]) next rest

/-- What follows one hyphen is a flag's letter and then more letters. -/
def ofLetters (release : Release) (afterHyphen : List Char) : Role :=
  match afterHyphen with
  | [] => withoutFlag []
  | c :: rest => match Flag.ofLetter? c with
    | none => withoutFlag afterHyphen
    | some flag => match release, rest with
      | .earlier, ['='] => valued flag []
      | .earlier, '=' :: letters => cluster .earlier [] flag letters
      | _, letters => cluster release [] flag letters

/-- What follows two hyphens is the beginning of a flag's word, up to an equals sign. -/
def ofWord (afterHyphens : List Char) : Role :=
  let word := afterHyphens.takeWhile (· != '=')
  match Flag.all.filter fun flag => word.isPrefixOf flag.word.toList with
  | [] => withoutFlag ('-' :: afterHyphens)
  | [flag] => match afterHyphens.dropWhile (· != '=') with
    | [] => flags [flag]
    | _ :: value => valued flag value
  | candidates => ambiguous candidates

/-- The role of an argument that comes before the mark. -/
def of (release : Release) (argument : List Char) : Role :=
  match argument with
  | '-' :: '-' :: word => ofWord word
  | '-' :: letters => ofLetters release letters
  | _ => expression

end Role

/-- An argument and what it is taken for. -/
structure Argument where
  text : String
  role : Role
deriving DecidableEq, Repr

/-- The arguments of a command line with their roles. -/
def Argument.classify (release : Release) : List String → List Argument
  | [] => []
  | text :: texts =>
    if text = "--" then ⟨text, .mark⟩ :: texts.map fun after => ⟨after, .expression⟩
    else ⟨text, .of release text.toList⟩ :: classify release texts

end Reckoner
