import CommandShell.Script.Token

/-! Reading the tokens of a script as statements. -/
namespace CommandShell.Script

/-- A word that can be a keyword: bare text alone. -/
def bareWord? : Pieces → Option String
  | [.literal text false] => some (String.ofList text)
  | _ => none

def keywords : List String :=
  ["do", "done", "then", "else", "elif", "fi", "\x7d"]

def isSeparator (text : String) : Bool :=
  text = ";" || text = "\n"

def skipSeparators : List Token → List Token
  | .operator line text :: rest =>
    if isSeparator text then skipSeparators rest else .operator line text :: rest
  | tokens => tokens

def skipNewlines : List Token → List Token
  | .operator line text :: rest =>
    if text = "\n" then skipNewlines rest else .operator line text :: rest
  | tokens => tokens

def nextKeyword? : List Token → Option String
  | .word _ pieces :: _ => bareWord? pieces
  | _ => none

def expect (expected : String) : List Token → Option (List Token)
  | .word _ pieces :: rest => if bareWord? pieces = some expected then some rest else none
  | _ => none

/-- A word of the form `name=value` in front of a command. -/
def assignment? : Pieces → Option (Raw × Pieces)
  | .literal text false :: rest =>
    match text.span (· ≠ '=') with
    | (c :: name, _ :: value) =>
      if isNameStart c && name.all isNameChar then
        some (c :: name, if value = [] then rest else .literal value false :: rest)
      else none
    | _ => none
  | _ => none

def takeSimple (command : SimpleCommand) : List Token → Option (SimpleCommand × List Token)
  | .word line pieces :: rest =>
    let command := if command.line = 0 then { command with line } else command
    match command.words, assignment? pieces with
    | [], some assignment =>
      takeSimple { command with assignments := command.assignments ++ [assignment] } rest
    | _, _ => takeSimple { command with words := command.words ++ [pieces] } rest
  | .redirect line descriptor direction :: .word _ target :: rest =>
    let command := if command.line = 0 then { command with line } else command
    takeSimple { command with redirects := command.redirects ++ [⟨descriptor, direction, target⟩] } rest
  | .redirect .. :: _ => none
  | tokens => some (command, tokens)

def takeWords (words : List Pieces) : List Token → List Pieces × List Token
  | .word _ pieces :: rest => takeWords (pieces :: words) rest
  | tokens => (words.reverse, tokens)

/-- A loop over words names its variable and, after `in`, its words; without them it goes
over the arguments. -/
def takeForHead : List Token → Option (Raw × List Pieces × List Token)
  | .word _ [.literal name false] :: rest =>
    match expect "in" (skipNewlines rest) with
    | some rest =>
      let (words, rest) := takeWords [] rest
      some (name, words, rest)
    | none => some (name, [[.parameter ['@'] true]], rest)
  | _ => none

mutual

/-- Statements up to a keyword that ends them. -/
def parseList (fuel : Nat) (tokens : List Token) : Option (Statement × List Token) :=
  match fuel with
  | 0 => none
  | fuel + 1 =>
    let tokens := skipSeparators tokens
    match tokens with
    | [] => some (.skip, [])
    | token :: rest =>
      if (nextKeyword? tokens).any (· ∈ keywords) then some (.skip, tokens)
      else
        match parseChain fuel (token :: rest) with
        | none => none
        | some (first, rest) =>
          match parseList fuel rest with
          | none => none
          | some (.skip, rest) => some (first, rest)
          | some (second, rest) => some (.sequence first second, rest)

def parseChain (fuel : Nat) (tokens : List Token) : Option (Statement × List Token) :=
  match fuel with
  | 0 => none
  | fuel + 1 =>
    match parseNegated fuel tokens with
    | none => none
    | some (first, rest) => parseChainRest fuel first rest

def parseChainRest (fuel : Nat) (first : Statement) (tokens : List Token) :
    Option (Statement × List Token) :=
  match fuel with
  | 0 => none
  | fuel + 1 =>
    match tokens with
    | .operator _ "&&" :: rest =>
      match parseNegated fuel (skipNewlines rest) with
      | none => none
      | some (second, rest) => parseChainRest fuel (.both first second) rest
    | .operator _ "||" :: rest =>
      match parseNegated fuel (skipNewlines rest) with
      | none => none
      | some (second, rest) => parseChainRest fuel (.either first second) rest
    | .operator line text :: rest =>
      if isSeparator text then some (first, .operator line text :: rest) else none
    | tokens => some (first, tokens)

def parseNegated (fuel : Nat) (tokens : List Token) : Option (Statement × List Token) :=
  match fuel with
  | 0 => none
  | fuel + 1 =>
    match expect "!" tokens with
    | some rest => (parseCommand fuel rest).map fun (body, rest) => (.negated body, rest)
    | none => parseCommand fuel tokens

def parseCommand (fuel : Nat) (tokens : List Token) : Option (Statement × List Token) :=
  match fuel with
  | 0 => none
  | fuel + 1 =>
    match nextKeyword? tokens with
    | some "if" => parseBranch fuel (tokens.drop 1)
    | some "while" => parseLoop fuel true (tokens.drop 1)
    | some "until" => parseLoop fuel false (tokens.drop 1)
    | some "for" =>
      match takeForHead (tokens.drop 1) with
      | none => none
      | some (name, words, rest) =>
        match parseBody fuel rest with
        | none => none
        | some (body, rest) => some (.forEach name words body, rest)
    | some "\x7b" =>
      match parseList fuel (tokens.drop 1) with
      | none => none
      | some (body, rest) => (expect "\x7d" rest).map fun rest => (body, rest)
    | _ =>
      match takeSimple { line := 0 } tokens with
      | none => none
      | some (command, rest) =>
        if command.line = 0 then none else some (.simple command, rest)

def parseBody (fuel : Nat) (tokens : List Token) : Option (Statement × List Token) :=
  match fuel with
  | 0 => none
  | fuel + 1 =>
    match expect "do" (skipSeparators tokens) with
    | none => none
    | some rest =>
      match parseList fuel rest with
      | none => none
      | some (body, rest) => (expect "done" rest).map fun rest => (body, rest)

def parseLoop (fuel : Nat) (wanted : Bool) (tokens : List Token) :
    Option (Statement × List Token) :=
  match fuel with
  | 0 => none
  | fuel + 1 =>
    match parseList fuel tokens with
    | none => none
    | some (condition, rest) =>
      (parseBody fuel rest).map fun (body, rest) => (.loop wanted condition body, rest)

def parseBranch (fuel : Nat) (tokens : List Token) : Option (Statement × List Token) :=
  match fuel with
  | 0 => none
  | fuel + 1 =>
    match parseList fuel tokens with
    | none => none
    | some (condition, rest) =>
      match (expect "then" rest).bind (parseList fuel) with
      | none => none
      | some (body, rest) =>
        match nextKeyword? rest with
        | some "fi" => some (.branch condition body .skip, rest.drop 1)
        | some "elif" =>
          (parseBranch fuel (rest.drop 1)).map fun (otherwise, rest) =>
            (.branch condition body otherwise, rest)
        | some "else" =>
          match parseList fuel (rest.drop 1) with
          | none => none
          | some (otherwise, rest) =>
            (expect "fi" rest).map fun rest => (.branch condition body otherwise, rest)
        | _ => none

end

def parse? (text : Raw) : Option Statement :=
  match tokens? text with
  | none => none
  | some tokens =>
    match parseList (10 * tokens.length + 10) tokens with
    | some (statement, []) => some statement
    | _ => none

end CommandShell.Script
