import SteppedLogo.Program.Words
import SteppedLogo.Interpreter.Signature

namespace SteppedLogo

/-- An interpreter of programs of words, with words of its own. A wrapping one raises each error
    again as one of the language. -/
structure Interpreter where
  wrapping : Bool := false
  words : Words := []

namespace Interpreter

/-- How a source runs once the words of the turtle are bound. -/
def program (i : Interpreter) : String → Work Value :=
  let words := i.words.bind turtleWords
  if i.wrapping then Words.executeWrapping words else Words.execute words

/-- What the bridge uses of an interpreter. -/
def features : List String := ["oncall", "onbreak", "execute", "bind_values", "request_break"]

end Interpreter

/-- What a factory has made: an object of a named type, with what it offers, and the interpreter
    that it is, if it is one. Some factories keep their arguments in it. -/
structure Product where
  typeName : String
  offers : List String := []
  interpreter : Option Interpreter := none
  config : Option Arguments := none

/-- An object counts as an interpreter if it offers what the bridge uses. -/
def Product.isInterpreter (p : Product) : Bool :=
  Interpreter.features.all p.offers.contains

def Product.ofInterpreter (typeName : String) (i : Interpreter) : Product :=
  { typeName, offers := Interpreter.features, interpreter := some i }

end SteppedLogo
