import ChartLint.Pattern.Build
import ChartLint.Source.Brace

/-!
# Declarations of a script

The shapes of the class that a script declares, of its namespace, and of the methods that it
overrides.
-/

namespace ChartLint.Source

open Pattern

/-- An opening brace. -/
def openBrace : Pattern :=
  .one (· == '{')

/-- A class that derives from one of the two script bases; keeps the base as its kind. -/
def classDeclaration : Pattern :=
  "public" ++ gap ++ .star (anyWord ["partial", "sealed", "abstract"] ++ gap)
    ++ "class" ++ gap ++ .keep .name word ++ blanks ++ ":" ++ blanks
    ++ .keep .kind (anyWord ["Indicator", "Strategy"]) ++ .edge

/-- A namespace declaration; keeps the dotted path as its name. -/
def namespaceDeclaration : Pattern :=
  .edge ++ "namespace" ++ gap ++ .keep .name (many1 isPathChar)

/-- An empty parameter list. -/
def noParameters : Pattern :=
  "(" ++ blanks ++ ")"

/-- The head of an overriding method without parameters. -/
def overrideHead (method : Text) : Pattern :=
  .edge ++ "override" ++ gap ++ "void" ++ gap ++ literal method ++ blanks ++ noParameters

/-- A directive that imports a namespace. -/
def usingDirective (path : Text) : Pattern :=
  .edge ++ "using" ++ gap ++ literal path ++ blanks ++ ";"

/-- The braces of an overriding method in masked text. The closing one is the end of the text when
the body is not closed. -/
def methodBody? (masked : Text) (method : Text) : Option Span :=
  match (overrideHead method).find? masked with
  | none => none
  | some head =>
    (indexFrom? masked '{' head.stop).map (fun opener => ⟨opener, matchingBrace masked opener⟩)

end ChartLint.Source
