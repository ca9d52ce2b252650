import PeerTrust.Text.Letters

/-!
# Filters of the log

A filter says from which level on the messages of a program part are shown. It is a list of
directives between commas: a level for all parts, the name of a part, or a name and a level with an
equals sign between them. The directive with the longest name that fits counts.
-/

namespace PeerTrust

/-- A directive of a filter. -/
structure LogFilter.Directive where
  /-- What the names of the parts begin with; `none` for all parts. -/
  target : Option String
  /-- The least important level that is shown, from one for errors to five; zero for none. -/
  level : Nat
  /-- Whether the directive counts only inside of certain spans, of which there are none here. -/
  isScoped : Bool
  deriving DecidableEq, Repr

/-- The directives that say what is shown. -/
structure LogFilter where
  directives : List LogFilter.Directive
  deriving DecidableEq, Repr

namespace LogFilter

/-- The level that shows everything. -/
def finest : Nat := 5

/-- The names of the levels. -/
def levels : List (String × Nat) :=
  [("off", 0), ("error", 1), ("warn", 2), ("info", 3), ("debug", 4), ("trace", 5), ("", 1)]

/-- Whether a character is a decimal digit. -/
def isDigit (c : Char) : Bool := '0' ≤ c && c ≤ '9'

/-- Reads a level, which is a name or a number. -/
def level? (text : String) : Option Nat :=
  let digits := if text.startsWith "+" then text.toList.drop 1 else text.toList
  if digits ≠ [] ∧ digits.all isDigit then
    let number := digits.foldl (fun number digit => 10 * number + (digit.toNat - '0'.toNat)) 0
    if number ≤ finest then some number else none
  else levels.lookup (Letters.lowerCase text)

/-- Whether a directive may begin with a character. -/
def startsDirective (c : Char) : Bool :=
  c.isAlphanum || c == '-' || c == ':' || c == '_' || 0x7F < c.toNat

/-- Reads what follows the name of a part or of a span. -/
def readLevel (target : Option String) (isScoped : Bool) : List Char → Option Directive
  | [] => some ⟨target, finest, isScoped⟩
  | '=' :: [] => some ⟨target, finest, isScoped⟩
  | '=' :: text => (level? (String.ofList text)).map (⟨target, ·, isScoped⟩)
  | _ => none

/-- Reads a directive for certain spans, behind the opening bracket. -/
def readSpan (target : Option String) (text : List Char) : Option Directive :=
  match text.dropWhile (· ≠ ']') with
  | _ :: rest => readLevel target true rest
  | [] => none

/-- Reads a directive. -/
def Directive.read? (text : String) : Option Directive :=
  let chars := text.toList
  let name := chars.takeWhile fun c => c ≠ '=' && c ≠ '['
  match chars with
  | [] => none
  | '[' :: rest => readSpan none rest
  | c :: _ =>
      if ¬startsDirective c then none
      else match chars.drop name.length with
        | '[' :: rest => readSpan (some (String.ofList name)) rest
        | [] =>
            match level? text with
            | some level => some ⟨none, level, false⟩
            | none => some ⟨some text, finest, false⟩
        | rest => readLevel (some (String.ofList name)) false rest

/-- The filter of a text. What is no directive is left out; without any directive, errors are
shown. -/
def ofText (text : String) : LogFilter :=
  match (text.splitOn ",").filterMap Directive.read? with
  | [] => ⟨[⟨none, 1, false⟩]⟩
  | directives => ⟨directives⟩

/-- How specific a directive is; one for all parts is the least specific. -/
def Directive.weight (directive : Directive) : Nat :=
  match directive.target with
  | none => 0
  | some target => target.utf8ByteSize + 1

/-- Whether a directive is about a part of the program. -/
def Directive.covers (directive : Directive) (target : String) : Bool :=
  !directive.isScoped && directive.target.all fun start => target.startsWith start

/-- The more specific of two directives, of two equal ones the later one. -/
def Directive.prefer (best : Option Directive) (directive : Directive) : Option Directive :=
  match best with
  | some best => if directive.weight < best.weight then some best else some directive
  | none => some directive

/-- Whether messages of a level are shown for a part of the program. -/
def shows (filter : LogFilter) (target : String) (level : Nat) : Bool :=
  let covering := filter.directives.filter (·.covers target)
  (covering.foldl Directive.prefer none).any (level ≤ ·.level)

/-- Whether errors of the program itself are shown. -/
def showsErrors (filter : LogFilter) : Bool := filter.shows "mtls_trust" 1

end LogFilter

end PeerTrust
