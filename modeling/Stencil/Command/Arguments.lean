import Stencil.Site.Build

/-! Command lines. Arguments are read from left to right, and the first thing that settles the
outcome does so: a fault, a wish for help or for the version. Every option may be given once. -/

namespace Stencil.Command

/-- An option with its long and its short name; it stands alone or takes a value. -/
structure Switch where
  long : String
  short : Char
  takesValue : Bool
deriving DecidableEq

/-- The outcomes of reading that are no command. -/
inductive Stop where
  | misuse
  | help
  | version
deriving DecidableEq

/-- What has been given so far; the value of an option that stands alone is empty. -/
structure Given where
  options : List (String × String)
  operands : List String
  plain : Bool
deriving DecidableEq

namespace Given

def none : Given := ⟨[], [], false⟩

def has (g : Given) (long : String) : Bool := g.options.any (·.1 == long)

def get? (g : Given) (long : String) : Option String := g.options.lookup long

def add (g : Given) (s : Switch) (value : String) : Except Stop Given :=
  if g.has s.long then .error .misuse
  else if s.takesValue && value.isEmpty then .error .misuse
  else .ok ⟨(s.long, value) :: g.options, g.operands, g.plain⟩

/-- Adds an operand where no more than `limit` are wanted. -/
def addOperand (g : Given) (limit : Nat) (value : String) : Except Stop Given :=
  if g.operands.length < limit then .ok ⟨g.options, g.operands ++ [value], g.plain⟩
  else .error .misuse

end Given

/-- What one level of the command line knows: its options, whether it has a version, and how many
operands it wants. -/
structure Level where
  switches : List Switch
  hasVersion : Bool
  operands : Nat

namespace Level

/-- The argument behind an option as its value; one that looks like an option is none. -/
def nextValue? : Option String → Option String
  | some v => if v.toList.head? == some '-' && v != "-" then .none else some v
  | .none => .none

/-- An option that wants the next argument as its value. The second part tells that the argument
is used up. -/
def addNext (g : Given) (s : Switch) (next : Option String) : Except Stop (Given × Bool) :=
  match nextValue? next with
  | some v => (g.add s v).map (·, true)
  | .none => .error .misuse

/-- A long option, without its dashes. -/
def readLong (l : Level) (g : Given) (text : List Char) (next : Option String) :
    Except Stop (Given × Bool) :=
  let name := String.ofList (text.takeWhile (· != '='))
  let attached := text.dropWhile (· != '=')
  match l.switches.find? (·.long == name) with
  | some s =>
    match attached, s.takesValue with
    | [], false => (g.add s "").map (·, false)
    | [], true => addNext g s next
    | _ :: value, true => (g.add s (String.ofList value)).map (·, false)
    | _ :: _, false => .error .misuse
  | .none =>
    if name == "help" && attached.isEmpty then .error .help
    else if name == "version" && attached.isEmpty && l.hasVersion then .error .version
    else .error .misuse

/-- Short options in one argument. What stands behind one that takes a value is that value, with
an equals sign in between if need be. -/
def readShort (l : Level) (g : Given) (next : Option String) : List Char →
    Except Stop (Given × Bool)
  | [] => .ok (g, false)
  | c :: cs =>
    match l.switches.find? (·.short == c) with
    | some s =>
      if s.takesValue then
        match cs with
        | [] => addNext g s next
        | '=' :: value => (g.add s (String.ofList value)).map (·, false)
        | value => (g.add s (String.ofList value)).map (·, false)
      else do readShort l (← g.add s "") next cs
    | .none =>
      if c == 'h' then .error .help
      else if c == 'V' && l.hasVersion then .error .version
      else .error .misuse

/-- One argument. Behind `--` all of them are operands. -/
def readOne (l : Level) (g : Given) (arg : String) (next : Option String) :
    Except Stop (Given × Bool) :=
  if g.plain then (g.addOperand l.operands arg).map (·, false)
  else match arg.toList with
    | ['-', '-'] => .ok (⟨g.options, g.operands, true⟩, false)
    | '-' :: '-' :: text => readLong l g text next
    | '-' :: c :: cs => readShort l g next (c :: cs)
    | _ => (g.addOperand l.operands arg).map (·, false)

/-- All arguments; `used` tells that the first one is the value of the option before it. -/
def readAll (l : Level) : (used : Bool) → Given → List String → Except Stop Given
  | _, g, [] => .ok g
  | true, g, _ :: rest => readAll l false g rest
  | false, g, arg :: rest => do
    let (g, used) ← readOne l g arg rest.head?
    readAll l used g rest

end Level

def verbose : Switch := ⟨"verbose", 'v', false⟩

def rootSwitch : Switch := ⟨"root", 'r', true⟩

def forceSwitch : Switch := ⟨"force", 'F', false⟩

def newLevel : Level := ⟨[verbose, rootSwitch, forceSwitch], false, 0⟩

def buildLevel : Level :=
  ⟨[verbose, rootSwitch, ⟨"output", 'o', true⟩, forceSwitch, ⟨"watch", 'w', false⟩,
    ⟨"context", 'c', true⟩], false, 0⟩

def checkLevel : Level := ⟨[verbose, rootSwitch], false, 1⟩

def topLevel : Level := ⟨[verbose], true, 0⟩

end Command

/-- What the program is asked to do. -/
inductive Command where
  | new (root : String) (force : Bool)
  | build (o : Site.Options) (watch : Bool)
  | check (page root : String)
deriving DecidableEq

namespace Command

def rootOf (g : Given) : String := (g.get? "root").getD "."

def readNew (args : List String) : Except Stop Command := do
  let g ← newLevel.readAll false .none args
  return .new (rootOf g) (g.has "force")

def readBuild (args : List String) : Except Stop Command := do
  let g ← buildLevel.readAll false .none args
  return .build ⟨rootOf g, (g.get? "output").getD "site", g.has "force", g.get? "context"⟩
    (g.has "watch")

def readCheck (args : List String) : Except Stop Command := do
  let g ← checkLevel.readAll false .none args
  match g.operands with
  | [page] => return .check page (rootOf g)
  | _ => .error .misuse

def names : List String := ["new", "build", "check", "help"]

/-- Help on the program, or on one of its commands. -/
def readHelp : List String → Except Stop Command
  | [] => .error .help
  | [name] => if name ∈ names then .error .help else .error .misuse
  | _ => .error .misuse

/-- The command that a name stands for, with the arguments behind it. -/
def readNamed (name : String) (args : List String) : Except Stop Command :=
  if name = "new" then readNew args
  else if name = "build" then readBuild args
  else if name = "check" then readCheck args
  else if name = "help" then readHelp args
  else .error .misuse

/-- The whole command line: options, then the name of a command. -/
def readFrom (g : Given) : List String → Except Stop Command
  | [] => .error .misuse
  | arg :: rest =>
    if arg.toList.head? == some '-' && arg != "-" && !g.plain then do
      readFrom (← topLevel.readOne g arg .none).1 rest
    else if g.plain then .error .misuse
    else readNamed arg rest

def ofArguments (args : List String) : Except Stop Command := readFrom .none args

end Command

end Stencil
