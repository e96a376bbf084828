import SteppedLogo.Interpreter.Catalogue

namespace SteppedLogo

/-- Interpreters of programs of words: one that fails with the errors of its words, and one that
    raises each as an error of the language. -/
def Catalogue.builtin : Catalogue :=
  [{ name := "words"
     members := [("Plain", .interpreters "Plain" "Plain" {}),
       ("Wrapping", .interpreters "Wrapping" "Wrapping" { wrapping := true })] }]

end SteppedLogo
