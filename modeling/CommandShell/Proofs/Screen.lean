import CommandShell.Text.Printable

/-! A terminal as far as a line editor uses it: the line that the cursor is on, which has
no right end and gives every character one cell, and the control sequences that move the
cursor along it or erase it. -/
namespace CommandShell

inductive Control where
  | none
  | escape
  | bracket (parameter : Option Nat)
  deriving DecidableEq, Repr

/-- The line with the cursor. A blank cell holds a space. Terminals do not agree on how far
a move by zero columns goes, which is what `zeroMove` says. -/
structure Screen where
  cells : Nat → Char
  column : Nat
  control : Control
  zeroMove : Nat

namespace Screen

def fresh (zeroMove : Nat) : Screen :=
  ⟨fun _ => ' ', 0, .none, zeroMove⟩

def put (screen : Screen) (c : Char) : Screen :=
  { screen with
    cells := fun i => if i = screen.column then c else screen.cells i
    column := screen.column + 1 }

def eraseRight (screen : Screen) : Screen :=
  { screen with cells := fun i => if i < screen.column then screen.cells i else ' ' }

def distance (screen : Screen) : Option Nat → Nat
  | none => 1
  | some 0 => screen.zeroMove
  | some n => n

def perform (screen : Screen) (parameter : Option Nat) (last : Char) : Screen :=
  let screen := { screen with control := .none }
  match last with
  | 'K' => if parameter.getD 0 = 0 then screen.eraseRight else screen
  | 'C' => { screen with column := screen.column + screen.distance parameter }
  | 'D' => { screen with column := screen.column - screen.distance parameter }
  | _ => screen

def digitValue (c : Char) : Nat :=
  c.toNat - '0'.toNat

/-- One character that arrives at the terminal. A bell changes nothing on the line. -/
def step (screen : Screen) (c : Char) : Screen :=
  match screen.control with
  | .escape => { screen with control := if c = '[' then .bracket none else .none }
  | .bracket parameter =>
    if c.isDigit then
      { screen with control := .bracket (some (10 * parameter.getD 0 + digitValue c)) }
    else screen.perform parameter c
  | .none =>
    if c = '\x1b' then { screen with control := .escape }
    else if c = '\n' then fresh screen.zeroMove
    else if c = '\r' then { screen with column := 0 }
    else if c = '\x08' then { screen with column := screen.column - 1 }
    else if Text.isPrintable c then screen.put c
    else screen

def write (screen : Screen) (text : String) : Screen :=
  text.toList.foldl step screen

/-- The line shows exactly `text`, with nothing to the right of it, the cursor stands in
`column`, and the terminal is not inside a control sequence. -/
structure Shows (screen : Screen) (text : List Char) (column : Nat) : Prop where
  cells : ∀ i, screen.cells i = text.getD i ' '
  column : screen.column = column
  control : screen.control = .none

@[simp] theorem write_empty (screen : Screen) : screen.write "" = screen := by
  simp [write]

@[simp] theorem write_append (screen : Screen) (first second : String) :
    screen.write (first ++ second) = (screen.write first).write second := by
  simp [write]

theorem fresh_shows (zeroMove : Nat) : (fresh zeroMove).Shows [] 0 :=
  ⟨by simp [fresh], rfl, rfl⟩

theorem Shows.at_column {screen : Screen} {text : List Char} {column other : Nat}
    (shows : screen.Shows text column) (same : column = other) : screen.Shows text other :=
  same ▸ shows

theorem isPrintable_ne {c d : Char} (printable : Text.isPrintable c = true)
    (control : Text.isPrintable d = false) : c ≠ d := by
  rintro rfl
  simp [printable] at control

theorem isPrintable_space : Text.isPrintable ' ' = true := by decide +kernel

theorem step_printable {screen : Screen} {c : Char} (free : screen.control = .none)
    (printable : Text.isPrintable c = true) : screen.step c = screen.put c := by
  have escape := isPrintable_ne printable (d := '\x1b') (by decide)
  have newline := isPrintable_ne printable (d := '\n') (by decide)
  have carriage := isPrintable_ne printable (d := '\r') (by decide)
  have backspace := isPrintable_ne printable (d := '\x08') (by decide)
  simp [step, free, escape, newline, carriage, backspace, printable]

/-- Text that is written at the end of a line is added to what it shows. -/
theorem write_echo {screen : Screen} {shown : List Char} (text : String)
    (shows : screen.Shows shown shown.length)
    (printable : ∀ c ∈ text.toList, Text.isPrintable c = true) :
    (screen.write text).Shows (shown ++ text.toList) (shown ++ text.toList).length := by
  rw [write]
  generalize text.toList = letters at printable
  induction letters generalizing screen shown with
  | nil => simpa using shows
  | cons c rest ih =>
    have next : (screen.step c).Shows (shown ++ [c]) (shown ++ [c]).length := by
      rw [step_printable shows.control (printable c (by simp))]
      refine ⟨fun i => ?_, by simp [put, shows.column], shows.control⟩
      simp only [put, shows.column, shows.cells]
      by_cases last : i = shown.length
      · simp [last]
      · by_cases inside : i < shown.length
        · simp [last, List.getD_eq_getElem?_getD, List.getElem?_append_left inside]
        · have beyond : (shown ++ [c]).length ≤ i := by simp; omega
          simp [last, List.getD_eq_getElem?_getD, List.getElem?_eq_none beyond,
            List.getElem?_eq_none (Nat.le_of_not_lt inside)]
    simpa using ih next (fun d inside => printable d (by simp [inside]))

/-- Printable text leaves no control sequence open, wherever it is written. -/
theorem write_printable_control {screen : Screen} (text : String)
    (free : screen.control = .none)
    (printable : ∀ c ∈ text.toList, Text.isPrintable c = true) :
    (screen.write text).control = .none := by
  rw [write]
  generalize text.toList = letters at printable
  induction letters generalizing screen with
  | nil => exact free
  | cons c rest ih =>
    rw [List.foldl_cons, step_printable free (printable c (by simp))]
    exact ih free (fun d inside => printable d (by simp [inside]))

theorem write_bell {screen : Screen} (free : screen.control = .none) :
    screen.write "\x07" = screen := by
  have letters : "\x07".toList = ['\x07'] := by decide
  have bell : Text.isPrintable '\x07' = false := by decide
  simp [write, letters, step, free, bell]

theorem write_newline {screen : Screen} (free : screen.control = .none) :
    screen.write "\n" = fresh screen.zeroMove := by
  have letters : "\n".toList = ['\n'] := by decide
  simp [write, letters, step, free]

theorem write_left {screen : Screen} {shown : List Char} {column : Nat}
    (shows : screen.Shows shown (column + 1)) : (screen.write "\x08").Shows shown column := by
  have letters : "\x08".toList = ['\x08'] := by decide
  have moved : screen.write "\x08" = { screen with column := screen.column - 1 } := by
    simp [write, letters, step, shows.control]
  rw [moved]
  exact ⟨shows.cells, by simp [shows.column], shows.control⟩

theorem write_right {screen : Screen} {shown : List Char} {column : Nat}
    (shows : screen.Shows shown column) : (screen.write "\x1b[C").Shows shown (column + 1) := by
  have letters : "\x1b[C".toList = ['\x1b', '[', 'C'] := by decide
  have last : 'C'.isDigit = false := by decide
  simp only [write, letters, List.foldl_cons, List.foldl_nil, step, shows.control, last]
  exact ⟨shows.cells, by simp [perform, distance, shows.column], rfl⟩

/-- A space over the last character erases it, since a blank cell holds a space. -/
theorem write_rubout {screen : Screen} {shown : List Char} {c : Char}
    (shows : screen.Shows (shown ++ [c]) (shown.length + 1)) :
    (screen.write "\x08 \x08").Shows shown shown.length := by
  have parts : "\x08 \x08" = "\x08" ++ " " ++ "\x08" := by decide
  have space : " ".toList = [' '] := by decide
  have stepped := write_left shows
  have blanked : ((screen.write "\x08").write " ").Shows shown (shown.length + 1) := by
    rw [write, space, List.foldl_cons, List.foldl_nil,
      step_printable stepped.control isPrintable_space]
    refine ⟨fun i => ?_, by simp [put, stepped.column], stepped.control⟩
    simp only [put, stepped.column, stepped.cells]
    by_cases last : i = shown.length
    · simp [last]
    · simp only [last, if_false, List.getD_eq_getElem?_getD]
      by_cases inside : i < shown.length
      · rw [List.getElem?_append_left inside]
      · rw [List.getElem?_eq_none (by simp; omega), List.getElem?_eq_none (by omega)]
  rw [parts, write_append, write_append]
  exact write_left blanked

/-- Going back to the first column and erasing leaves an empty line. -/
theorem write_clear {screen : Screen} (free : screen.control = .none) :
    (screen.write "\r\x1b[K").Shows [] 0 := by
  have letters : "\r\x1b[K".toList = ['\r', '\x1b', '[', 'K'] := by decide
  have last : 'K'.isDigit = false := by decide
  simp only [write, letters, List.foldl_cons, List.foldl_nil, step, free, last]
  exact ⟨by simp [perform, eraseRight], by simp [perform, eraseRight],
    by simp [perform, eraseRight]⟩

/-- Digits are collected into the parameter of a control sequence. -/
theorem run_digits (digits : List Char) (allDigits : ∀ c ∈ digits, c.isDigit = true)
    (nonempty : digits ≠ []) (screen : Screen) (parameter : Option Nat)
    (inside : screen.control = .bracket parameter) :
    digits.foldl step screen =
      { screen with
        control := .bracket (some (Nat.ofDigitChars 10 digits (parameter.getD 0))) } := by
  induction digits generalizing screen parameter with
  | nil => exact absurd rfl nonempty
  | cons c rest ih =>
    have taken : screen.step c = { screen with
        control := .bracket (some (10 * parameter.getD 0 + digitValue c)) } := by
      simp [step, inside, allDigits c (by simp)]
    rw [List.foldl_cons, taken, Nat.ofDigitChars_cons]
    cases rest with
    | nil => simp [digitValue]
    | cons d rest =>
      rw [ih (fun e member => allDigits e (by simp_all)) (by simp) _ _ rfl]
      rfl

theorem write_back {screen : Screen} {shown : List Char} {column : Nat} (back : Nat)
    (positive : back ≠ 0) (shows : screen.Shows shown (column + back)) :
    (screen.write ("\x1b[" ++ toString back ++ "D")).Shows shown column := by
  have start : "\x1b[".toList = ['\x1b', '['] := by decide
  have finish : "D".toList = ['D'] := by decide
  have digits : (toString back).toList = Nat.toDigits 10 back := Nat.toList_repr
  have last : 'D'.isDigit = false := by decide
  have allDigits : ∀ c ∈ Nat.toDigits 10 back, c.isDigit = true := fun c member =>
    Nat.isDigit_of_mem_toDigits (by decide) (by decide) member
  have opened : screen.write "\x1b[" = { screen with control := .bracket none } := by
    simp [write, start, step, shows.control]
  rw [write_append, write_append, opened]
  simp only [write, digits, finish]
  rw [run_digits _ allDigits Nat.toDigits_ne_nil _ none rfl, Option.getD_none,
    Nat.ofDigitChars_ten_toDigits]
  simp only [List.foldl_cons, List.foldl_nil, step, last]
  obtain ⟨n, rfl⟩ := Nat.exists_eq_succ_of_ne_zero positive
  exact ⟨shows.cells, by simp [perform, distance, shows.column], rfl⟩

end Screen

end CommandShell
