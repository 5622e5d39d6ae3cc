import ClusterGate.Text.Basic

/-!
# Arguments of a command

A command takes options, operands and perhaps the name of a command below it. Options stand before or
between operands; `--` ends them. The command below gets the arguments behind its name.
-/

namespace ClusterGate.Cli

/-- What values an option or an operand takes. -/
inductive ValueKind where
  | text
  /-- A text that is not empty. -/
  | path
  /-- A whole number of 64 bits. -/
  | number
deriving DecidableEq, Repr

def ValueKind.admits : ValueKind → String → Bool
  | .text, _ => true
  | .path, s => s ≠ ""
  | .number, s => (Text.word? s).isSome

/-- An option: without a value kind it is a flag. -/
structure OptionRule where
  name : String
  short : Option Char := none
  value : Option ValueKind := none
  /-- May be given more than once. -/
  repeats : Bool := false
deriving Repr

structure Grammar where
  options : List OptionRule
  operands : List ValueKind := []
  commands : List String := []
  /-- Tells the version of the program. -/
  tellsVersion : Bool := false
deriving Repr

/-- What ends the reading of arguments early. -/
inductive Stop where
  /-- The arguments break the rules of the command. -/
  | misuse
  | help
  | version
deriving DecidableEq, Repr

/-- What was read: options with their values, operands, and the command below with its arguments. -/
structure Given where
  options : List (String × String) := []
  operands : List String := []
  command : Option (String × List String) := none
deriving Repr

namespace Given

def has (g : Given) (name : String) : Bool := g.options.any fun o => o.1 == name

def values (g : Given) (name : String) : List String :=
  (g.options.filter fun o => o.1 == name).map Prod.snd

def value? (g : Given) (name : String) : Option String := (g.values name).head?

end Given

namespace Grammar

def option? (g : Grammar) (name : String) : Option OptionRule :=
  g.options.find? fun o => o.name == name

def short? (g : Grammar) (letter : Char) : Option OptionRule :=
  g.options.find? fun o => o.short == some letter

def takeOption (found : Given) (rule : OptionRule) (value : String) : Except Stop Given :=
  let admitted := match rule.value with
    | some kind => kind.admits value
    | none => true
  if admitted && (rule.repeats || !found.has rule.name) then
    .ok { found with options := found.options ++ [(rule.name, value)] }
  else .error .misuse

/-- Takes letters behind one hyphen; each is a flag. -/
def takeLetters (g : Grammar) (found : Given) : List Char → Except Stop Given
  | [] => .ok found
  | letter :: rest =>
    if letter = 'h' then .error .help
    else if letter = 'V' ∧ g.tellsVersion then .error .version
    else match g.short? letter with
      | some rule => do takeLetters g (← takeOption found rule "") rest
      | none => .error .misuse

def takeOperand (g : Grammar) (found : Given) (value : String) : Except Stop Given :=
  match g.operands[found.operands.length]? with
  | some kind =>
    if kind.admits value then .ok { found with operands := found.operands ++ [value] }
    else .error .misuse
  | none => .error .misuse

/-- Whether an argument looks like an option; a lone hyphen does not. -/
def isOptionLike (arg : String) : Bool :=
  match arg.toList with
  | '-' :: _ :: _ => true
  | _ => false

/-- The name in a long option, and the value if one is attached. -/
def splitLong (cs : List Char) : String × Option String :=
  let name := String.ofList (cs.takeWhile (· ≠ '='))
  match cs.dropWhile (· ≠ '=') with
  | _ :: value => (name, some (String.ofList value))
  | [] => (name, none)

def read (g : Grammar) (found : Given) : List String → Except Stop Given
  | [] => .ok found
  | arg :: rest =>
    match arg.toList with
    | ['-', '-'] => rest.foldlM (takeOperand g) found
    | '-' :: '-' :: long =>
      let (name, attached) := splitLong long
      if name = "help" ∧ attached = none then .error .help
      else if name = "version" ∧ attached = none ∧ g.tellsVersion then .error .version
      else match g.option? name with
        | none => .error .misuse
        | some rule => match rule.value, attached with
          | none, none => do read g (← takeOption found rule "") rest
          | none, some _ => .error .misuse
          | some _, some value => do read g (← takeOption found rule value) rest
          | some _, none => match rest with
            | value :: rest =>
              if isOptionLike value then .error .misuse
              else do read g (← takeOption found rule value) rest
            | [] => .error .misuse
    | '-' :: c :: letters => do read g (← takeLetters g found (c :: letters)) rest
    | _ =>
      if g.commands.contains arg then .ok { found with command := some (arg, rest) }
      else if arg = "help" ∧ g.commands ≠ [] then .error .help
      else do read g (← takeOperand g found arg) rest

/-- Whether all operands are there, and the command below if there is a choice of them. -/
def isComplete (g : Grammar) (found : Given) : Bool :=
  found.operands.length == g.operands.length && (g.commands.isEmpty || found.command.isSome)

end Grammar

end ClusterGate.Cli
