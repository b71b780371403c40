import PassingStyle.Script.Language
import PassingStyle.Script.Standard
import PassingStyle.Text.Letter

/-!
# Scripts

Here is the language that scripts are written in. A script is a sequence of steps: it
calls functions, binds names to values and prints. It reaches what runs it through a
`Host` only: the functions that it is offered, and the place where it prints.

A name that the script binds anywhere is its own from the first step on, so it
hides what was given under that name, and cannot be used before it is bound. A
script that cannot be read, mentions a name that nobody knows, binds a name twice,
or gives too many arguments or a keyword argument twice is refused as a whole, before
its first step. So is a script with a name that is none: a name starts with a letter
or an underscore, goes on with these and digits, and is not one of the reserved words.

Values with a place at which nothing may look come from functions on texts only,
which answer with a pair whose second half is missing when all went well. Such a pair
may be thrown away and even be printed, but as soon as a script takes it apart or
keeps it until its end, everything comes to a halt.
-/

namespace PassingStyle

open Text

/-! ## Terms and steps -/

/-- **A term of a script**, which denotes a value. -/
inductive Term where
  /-- A value that is spelled out. -/
  | value (v : Value)
  /-- What a name is bound to. -/
  | name (name : Text)
  /-- A list. -/
  | list (items : List Term)
  /-- A tuple. -/
  | tuple (items : List Term)
  /-- A dictionary. -/
  | dict (entries : List (Term × Term))
  /-- The answer of what a name is bound to, with arguments and keyword arguments. -/
  | call (function : Text) (arguments : List Term) (keywords : List (Text × Term))

/-- **A step of a script.** -/
inductive Step where
  /-- Looking at a value, and dropping it. -/
  | evaluate (term : Term)
  /-- Binding a name. -/
  | bind (target : Text) (term : Term)
  /-- A line that cannot be read. -/
  | malformed

/-- **A script.** -/
abbrev Script := List Step

instance : Inhabited Term := ⟨.value .none⟩

/-! ## Which scripts are accepted -/

/-- The words that are no names. -/
def reservedWords : List Text :=
  ["and", "break", "continue", "def", "elif", "else", "for", "if", "in", "lambda", "load", "not",
   "or", "pass", "return", "while", "as", "async", "await", "class", "del", "except", "finally",
   "from", "global", "import", "is", "nonlocal", "raise", "try", "with", "yield"]

/-- A glyph that a name may start with. -/
def Glyph.startsName : Glyph → Bool
  | .char c => Letter.isLetter c || c == '_'
  | .stray _ => false

/-- A glyph that a name may go on with. -/
def Glyph.continuesName : Glyph → Bool
  | .char c => Letter.isLetter c || c == '_' || ('0' ≤ c && c ≤ '9')
  | .stray _ => false

/-- The text can be a name. -/
def isName (t : Text) : Bool :=
  match t.glyphs with
  | [] => false
  | g :: gs => g.startsName && gs.all Glyph.continuesName && !reservedWords.contains t

/-- How many arguments of a kind a call has at most. -/
def mostArguments : Nat := 255

/-- The arguments of a call can be read: there are not too many, and no keyword comes
twice. -/
def isReadableCall (arguments : List Term) (keywords : List Text) : Bool :=
  arguments.length ≤ mostArguments && keywords.length ≤ mostArguments &&
    keywords.Nodup && keywords.all isName

namespace Term

mutual

/-- The names that a term mentions. -/
def names : Term → List Text
  | value _ => []
  | name n => [n]
  | list items => namesOf items
  | tuple items => namesOf items
  | dict entries => namesOfEntries entries
  | call function arguments keywords =>
    function :: namesOf arguments ++ namesOfKeywords keywords

/-- The names that several terms mention. -/
def namesOf : List Term → List Text
  | [] => []
  | t :: ts => names t ++ namesOf ts

/-- The names that the entries of a dictionary mention. -/
def namesOfEntries : List (Term × Term) → List Text
  | [] => []
  | (k, v) :: rest => names k ++ names v ++ namesOfEntries rest

/-- The names that keyword arguments mention. -/
def namesOfKeywords : List (Text × Term) → List Text
  | [] => []
  | (_, v) :: rest => names v ++ namesOfKeywords rest

end

mutual

/-- The calls of a term can be read. -/
def isReadable : Term → Bool
  | value _ => true
  | name _ => true
  | list items => areReadable items
  | tuple items => areReadable items
  | dict entries => areReadableEntries entries
  | call _ arguments keywords =>
    isReadableCall arguments (keywords.map (·.1)) && areReadable arguments &&
      areReadableKeywords keywords

/-- The calls of several terms can be read. -/
def areReadable : List Term → Bool
  | [] => true
  | t :: ts => isReadable t && areReadable ts

/-- The calls of the entries of a dictionary can be read. -/
def areReadableEntries : List (Term × Term) → Bool
  | [] => true
  | (k, v) :: rest => isReadable k && isReadable v && areReadableEntries rest

/-- The calls of keyword arguments can be read. -/
def areReadableKeywords : List (Text × Term) → Bool
  | [] => true
  | (_, v) :: rest => isReadable v && areReadableKeywords rest

end

end Term

namespace Step

/-- The term of a step. -/
def term? : Step → Option Term
  | evaluate term => some term
  | bind _ term => some term
  | malformed => none

/-- The name that a step binds. -/
def target? : Step → Option Text
  | bind target _ => some target
  | _ => none

/-- The names that a step mentions. -/
def names (step : Step) : List Text :=
  (step.term?.map Term.names).getD []

/-- The step can be read: its names are names, and so can the calls in it. -/
def isReadable (step : Step) : Bool :=
  step.names.all isName && step.target?.all isName && step.term?.any Term.isReadable

end Step

namespace Script

/-- The names that a script binds, in the order of its steps. -/
def targets (script : Script) : List Text :=
  script.filterMap Step.target?

/-- **The script is accepted**, given the names that are known without it. -/
def isAccepted (script : Script) (known : List Text) : Bool :=
  script.all Step.isReadable && script.targets.Nodup &&
    script.all fun step => step.names.all fun n => script.targets.contains n || known.contains n

end Script

/-! ## Running scripts -/

namespace Runner

/-! ### Arguments of functions -/

/-- The answer of a function that looks at values only. -/
def answering (answer : Except Objection α) : Scripting α :=
  match answer with
  | .ok a => return a
  | .error (.complaint message) => complain message
  | .error .hole => throw .hole

/-- The argument of a function, here by name, with one parameter. -/
def argument (function : Text) (slot : Slot) (arguments : List Value) (keywords : Names) :
    Scripting (Option Value) := do
  return (← answering (Slot.assign function [slot] arguments keywords)).head?.join

/-- The argument of a function that takes a string. -/
def textArgument (function parameter : Text) (arguments : List Value) (keywords : Names) :
    Scripting Text := do
  match ← argument function { name := parameter, want := .string } arguments keywords with
  | some (.string s) => return s
  | _ => return []

/-- The argument of a function that takes any value. -/
def valueArgument (function parameter : Text) (arguments : List Value) (keywords : Names) :
    Scripting Value := do
  return (← argument function { name := parameter } arguments keywords).getD .none

/-- What stands between the values that a function writes side by side: a blank, or
what a keyword argument says. -/
def separator (function : Builtin) (keywords : Names) : Scripting Text := do
  let slot : Slot := { name := "sep", want := .string, optional := true }
  match ← argument function.name slot [] keywords with
  | some (.string s) => return s
  | _ => return " "

/-- A value of this kind cannot be taken for a string. -/
def mismatch (kind : Text) : Scripting α :=
  complain ("unmarshaling kind: " ++ kind ++ " to string\nunmarshal error\npath: ")

/-- A value that is taken for a string if that is possible. The value that stands
for nothing is taken for the empty string. -/
def takenForString : Value → Scripting Text
  | .string s => return s
  | .none => return []
  | .int _ => complain "not an integer: string"
  | .float _ => complain "not a float: string"
  | .list _ => complain "not a list: string"
  | .tuple _ => complain "not a tuple: string"
  | .bool _ => mismatch "KindBool"
  | .bytes _ => mismatch "KindBytes"
  | .dict _ => mismatch "KindObject"
  | .set _ => mismatch "KindMap"
  | .range _ _ _ => throw (.foreign "starlark.rangeValue")
  | .builtin _ => throw (.foreign "*starlark.Builtin")
  | .hole => throw .hole

/-- The argument of the function that takes its arguments by place only and is
content with too many. It names a keyword argument in small letters. -/
def firstArgument (arguments : List Value) (keywords : Names) : Scripting Text := do
  match arguments with
  | [] => complain "not enough argument"
  | v :: _ =>
    let s ← takenForString v
    match keywords with
    | [] => return s
    | (keyword, _) :: _ => complain ("no such keyword argument: " ++ keyword.lowercase)

/-! ### Functions -/

/-- What a script sees of the answer of a function on texts: the text and what went
wrong. If nothing did, the second half of the pair is missing. -/
def presented : Except Failure Text → Value
  | .ok text => .tuple [.string text, .hole]
  | .error (.unreadable e) => .tuple [.string [], .ofSyntaxError e]
  | .error _ => .tuple [.string [], .table []]

/-- **The function of a script that a function on texts becomes.** -/
def made (f : Text → Running Text) : Function := fun arguments keywords => do
  let text ← firstArgument arguments keywords
  return presented (← (f text).run)

/-- The function that tells the keys of values, if one is given. -/
def keyFunction (function : Builtin) (keywords : Names) : Scripting (Option Value) :=
  argument function.name { name := "key", want := .callable, optional := true } [] keywords

/-- The value whose key lies furthest on a side, the first one of several; the best
one so far is given with its key. -/
def extreme (function : Builtin) (side : Side) (keyOf : Value → Scripting Value) :
    Value × Value → List Value → Scripting Value
  | (_, best), [] => return best
  | (bestKey, best), v :: vs => do
    let key ← keyOf v
    let better ← answering (prefaced (function.name ++ ": ") (Value.isOn side key bestKey))
    extreme function side keyOf (if better then (key, v) else (bestKey, best)) vs

/-- The values among which a function looks for the best one: its arguments, or the
elements of its only argument. -/
def candidates (function : Builtin) : List Value → Scripting (List Value)
  | [.hole] => throw .hole
  | [v] =>
    match v.elements? with
    | some items => return items
    | none => complain (function.name ++ ": " ++ v.typeName ++ " value is not iterable")
  | arguments => return arguments

/-- The best one of several values on a side. `apply` calls a function that is given
as an argument. -/
def best (apply : Value → Value → Scripting Value) (function : Builtin) (side : Side)
    (arguments : List Value) (keywords : Names) : Scripting Value := do
  if arguments.isEmpty then
    complain (function.name ++ " requires at least one positional argument")
  let key ← keyFunction function keywords
  let keyOf := key.elim pure apply
  match ← candidates function arguments with
  | [] => complain (function.name ++ ": argument is an empty sequence")
  | v :: vs => extreme function side keyOf (← keyOf v, v) vs

/-- Values in the order of their keys. `apply` calls a function that is given as an
argument. -/
def inOrder (apply : Value → Value → Scripting Value) (function : Builtin)
    (arguments : List Value) (keywords : Names) : Scripting Value := do
  let slots : List Slot := [
    { name := "iterable", want := .iterable },
    { name := "key", want := .callable, optional := true },
    { name := "reverse", want := .bool, optional := true }]
  match ← answering (Slot.assign function.name slots arguments keywords) with
  | some v :: key :: descending :: _ =>
    let keyOf := key.elim pure apply
    let items ← v.elements.mapM fun item => return (← keyOf item, item)
    let isDescending := match descending with
      | some (.bool b) => b
      | _ => false
    return .list (← answering (Value.sortByKey isDescending items))
  | _ => return .none

end Runner

namespace Host

open Runner

variable (host : Host)

/-- **Calling a function**, where `apply` calls a function that is given as an
argument. -/
def callBuiltin (apply : Value → Value → Scripting Value) (function : Builtin)
    (arguments : List Value) (keywords : Names) : Scripting Value := do
  match function with
  | .offered f => host.offers f arguments keywords
  | .print =>
    host.print (join (← separator function keywords) (arguments.map Value.printed))
    return .none
  | .fail =>
    complain ("fail: " ++ join (← separator function keywords) (arguments.map Value.shown))
  | .greatest => best apply function .above arguments keywords
  | .least => best apply function .below arguments keywords
  | .sorted => inOrder apply function arguments keywords
  | .standard f => answering (f.apply arguments keywords)
  | .inspection name => complain (name ++ ": not available")

/-- Calling a value, where `apply` calls a function that is given as an argument. -/
def callWith (apply : Value → Value → Scripting Value) (v : Value) (arguments : List Value)
    (keywords : Names) : Scripting Value :=
  match v with
  | .builtin function => host.callBuiltin apply function arguments keywords
  | .hole => throw .hole
  | _ => complain ("invalid call of non-function (" ++ v.typeName ++ ")")

/-- **Calling a value.** A function that is given as an argument gets one argument
itself, so there it cannot be given a function again. -/
def call (v : Value) (arguments : List Value) (keywords : Names) : Scripting Value :=
  host.callWith (fun f item => host.callWith (fun _ value => return value) f [item] []) v
    arguments keywords

end Host

/-! ### Steps -/

namespace Runner

/-- The values that every script can name. -/
def constants : Names :=
  [("None", .none), ("True", .bool true), ("False", .bool false)]

/-- What every script knows, by name. -/
def standard : Names :=
  constants ++ Builtin.all.map fun b => (b.name, Value.builtin b)

/-- What a name is bound to: the script's own names come first. -/
def lookup (own : List Text) (given bound : Names) (name : Text) : Except ScriptError Value :=
  if own.contains name then
    match bound.lookup name with
    | some v => .ok v
    | none => .error (.failed (.other
        ("global variable " ++ name ++ " referenced before assignment")))
  else
    match (given ++ standard).lookup name with
    | some v => .ok v
    | none => .error .refused

/-- The entries of a dictionary with one more, whose key must be new. -/
def addEntry (entries : List (Value × Value)) (key content : Value) :
    Scripting (List (Value × Value)) := do
  answering key.asKey
  if Value.hasKey entries key then complain ("duplicate key: " ++ key.repr)
  return entries ++ [(key, content)]

end Runner

namespace Host

open Runner

variable (host : Host)

mutual

/-- **The value of a term**, given what names are bound to. -/
def eval (lookup : Text → Except ScriptError Value) : Term → Scripting Value
  | .value v => return v
  | .name n => ExceptT.mk (pure (lookup n))
  | .list items => return .list (← evalAll lookup items)
  | .tuple items => return .tuple (← evalAll lookup items)
  | .dict entries => return .dict (← evalEntries lookup [] entries)
  | .call function arguments keywords => do
    let f ← ExceptT.mk (pure (lookup function))
    let values ← evalAll lookup arguments
    host.call f values (← evalKeywords lookup keywords)

/-- The values of several terms. -/
def evalAll (lookup : Text → Except ScriptError Value) : List Term → Scripting (List Value)
  | [] => return []
  | t :: ts => do
    let v ← eval lookup t
    return v :: (← evalAll lookup ts)

/-- The entries of a dictionary, added one after the other. -/
def evalEntries (lookup : Text → Except ScriptError Value) (sofar : List (Value × Value)) :
    List (Term × Term) → Scripting (List (Value × Value))
  | [] => return sofar
  | (k, v) :: rest => do
    let key ← eval lookup k
    let content ← eval lookup v
    evalEntries lookup (← addEntry sofar key content) rest

/-- The values of keyword arguments. -/
def evalKeywords (lookup : Text → Except ScriptError Value) :
    List (Text × Term) → Scripting Names
  | [] => return []
  | (keyword, t) :: rest => do
    let v ← eval lookup t
    return (keyword, v) :: (← evalKeywords lookup rest)

end

/-- One step, given what the names are bound to; the result is the value that the
step is about. -/
def step (lookup : Text → Except ScriptError Value) (s : Step) : Scripting Value :=
  match s.term? with
  | some term => host.eval lookup term
  | none => throw .refused

/-- **The steps of a script**, up to the first that fails: what was bound, and what
went wrong. -/
def steps (own : List Text) (given : Names) :
    List Step → Names → Runner → (Names × Option ScriptError) × Runner
  | [], bound, r => ((bound, none), r)
  | s :: rest, bound, r =>
    match StateT.run (ExceptT.run (host.step (lookup own given bound) s)) r with
    | (.error e, r) => ((bound, some e), r)
    | (.ok v, r) =>
      match s.target? with
      | some name => steps own given rest (bound ++ [(name, v)]) r
      | none => steps own given rest bound r

/-- **Running a script** with the values that it is given. A value that it keeps must
be whole. -/
def exec (script : Script) (given : Names) (r : Runner) :
    (Names × Option ScriptError) × Runner :=
  if script.isAccepted ((given ++ standard).map (·.1)) then
    let ((bound, error), r) := host.steps script.targets given script [] r
    if bound.all fun entry => entry.2.isWhole then ((bound, error), r)
    else ((bound, some .hole), r)
  else (([], some .refused), r)

end Host

/-! ## The language -/

/-- **The language of these scripts.** -/
def Script.language : ScriptLanguage where
  Term := Term
  Script := Script
  literal text := .value (.string text)
  apply function argument := .call function [argument] []
  textArgument := Runner.textArgument
  valueArgument := Runner.valueArgument
  makeFunction _ := Runner.made
  eval host := host.eval (Runner.lookup [] [] [])
  exec host _ := host.exec

namespace Runner

/-- The value of a term, given what names are bound to. -/
def eval (lookup : Text → Except ScriptError Value) (t : Term) : Scripting Value :=
  Script.language.host.eval lookup t

/-- Running a script with the values that it is given. -/
def run (file : Text) (script : Script) (given : Names) (r : Runner) :
    (Names × Option ScriptError) × Runner :=
  Script.language.run file script given r

/-- Running a script on a conversion. -/
def runHook (file : Text) (script : Script) (source converted : Sexp) (r : Runner) :
    Option ScriptError × Runner :=
  Script.language.runHook file script source converted r

end Runner

end PassingStyle
