import GenomeMachine.Text.Blank
import GenomeMachine.Text.Numeral

/-!
# The words of a listing

A listing has one instruction on a line. A semicolon starts a comment. Two marks of the indented
layout carry no meaning: `-->` anywhere, and `----` alone on its line.
-/

namespace GenomeMachine

/-- A word of a listing: a number, or else a name. -/
inductive Token where
  | name (text : String)
  | number (value : Nat)
  deriving DecidableEq

/-- The word as error messages show it. -/
def Token.text : Token → String
  | name text => text
  | number value => toString value

/-- What is wrong with a line. -/
inductive LineError where
  | unknownInstruction (name : String)
  | missingArgument (name : String) (expected : Nat)
  | invalidNumber (text : String)
  | unexpectedToken (text : String)
  deriving DecidableEq

def LineError.message : LineError → String
  | unknownInstruction name => s!"unknown instruction '{name}'"
  | missingArgument name expected => s!"{name} expects {expected} argument(s)"
  | invalidNumber text => s!"invalid number '{text}'"
  | unexpectedToken text => s!"unexpected token '{text}'"

/-- The end of an opener in the indented layout. -/
def openMark : List Char := ['-', '-', '>']

/-- The line between two scopes of one depth in the indented layout. -/
def siblingMark : List Char := ['-', '-', '-', '-']

/-- The value of a word that has to be a number: hexadecimal digits after `0x`, or decimal
digits, of at most 64 bits. -/
def wordNumber? : List Char → Option Nat
  | '0' :: 'x' :: digits | '0' :: 'X' :: digits => word? 16 digits
  | digits => word? 10 digits

/-- Reads a word. What starts with a digit has to be a number. -/
def Token.read (word : List Char) : Except LineError Token :=
  if word.head?.any (isDigitIn 10) then
    match wordNumber? word with
    | some value => .ok (.number value)
    | none => .error (.invalidNumber (String.ofList word))
  else .ok (.name (String.ofList word))

/-- The words of a line that carry meaning. -/
def lineWords (line : List Char) : List (List Char) :=
  let all := words (line.takeWhile (· ≠ ';'))
  if all = [siblingMark] then [] else all.filter (· ≠ openMark)

/-- Reads the words of a line; the first bad one is reported. -/
def lineTokens (line : List Char) : Except LineError (List Token) :=
  (lineWords line).mapM Token.read

end GenomeMachine
