import CommandShell.Editor.ReadLine
import CommandShell.Proofs.Cutting
import CommandShell.Proofs.EditorScreen
import CommandShell.Proofs.Utf8

/-! Reading lines gives the same from a terminal, from a text that is held in memory and from
input that is shared with the commands. The terminal decodes its keys byte by byte and hears of
the end of input by a read without data; the others look for the next newline. -/
namespace CommandShell

/-- The lines of a text. A newline ends a line, so there is none after the last newline. -/
def textLines (text : List Char) : List String :=
  let pieces := Text.cut '\n' text
  (if pieces.getLast? = some [] then pieces.dropLast else pieces).map String.ofList

/-- A text is at its end, or starts with a line that a newline ends, or is a line itself. -/
inductive Lined : List Char → Prop
  | nothing : Lined []
  | ended (line rest : List Char) (whole : '\n' ∉ line) : Lined (line ++ '\n' :: rest)
  | last (line : List Char) (whole : '\n' ∉ line) (nonempty : line ≠ []) : Lined line

theorem lined (text : List Char) : Lined text := by
  by_cases newline : '\n' ∈ text
  · obtain ⟨line, rest, rfl, whole⟩ := List.eq_append_cons_of_mem newline
    exact .ended line rest whole
  · cases text with
    | nil => exact .nothing
    | cons c rest => exact .last _ newline (by simp)

theorem textLines_ended {line : List Char} (whole : '\n' ∉ line) (rest : List Char) :
    textLines (line ++ '\n' :: rest) = String.ofList line :: textLines rest := by
  obtain ⟨piece, pieces, split⟩ := Text.exists_cut '\n' rest
  simp only [textLines, Text.cut_separated, Text.cut_whole whole, split]
  by_cases final : (piece :: pieces).getLast? = some []
  · simp_all
  · simp_all

theorem textLines_last {line : List Char} (whole : '\n' ∉ line) (nonempty : line ≠ []) :
    textLines line = [String.ofList line] := by
  simp [textLines, Text.cut_whole whole, nonempty]

namespace Editor

section Terminal

variable {editor : Editor} {letters : List Char} (history : List String)

theorem feedUntilDone_eq_feedAll {keys : List Char}
    (unfinished : ∀ typed, typed <+: keys → (editor.feedAll history typed).1.state.isDone = false) :
    editor.feedUntilDone history keys = editor.feedAll history keys := by
  induction keys generalizing editor with
  | nil => rfl
  | cons c rest ih =>
    have here : (editor.feed history c).1.state.isDone = false := by
      have fed := unfinished [c] (by simp)
      rwa [feedAll_cons] at fed
    have later := ih fun typed part => by
      have fed := unfinished (c :: typed) (by simpa using part)
      rwa [feedAll_cons] at fed
    rw [feedUntilDone, feedAll_cons]
    simp [here, later]

theorem feedAll_append (editor : Editor) (first second : List Char) :
    editor.feedAll history (first ++ second) =
      (((editor.feedAll history first).1.feedAll history second).1,
        (editor.feedAll history first).2 ++
          ((editor.feedAll history first).1.feedAll history second).2) := by
  rw [feedAll, List.foldl_append, ← feedAll, feedAll_from]

theorem feedAll_snoc (editor : Editor) (keys : List Char) (c : Char) :
    (editor.feedAll history (keys ++ [c])).1 =
      ((editor.feedAll history keys).1.feed history c).1 := by
  rw [feedAll_append, feedAll_cons]
  rfl

/-- Bytes that do not finish the line act by the characters that they decode to. -/
theorem readEvents_bytes (decoder : Text.Utf8State) (written : String) (bytes : Bytes)
    (rest : List TerminalEvent) {keys : List Char} {last : Text.Utf8State}
    (decoded : (Text.utf8Feed decoder bytes).1.map Text.shown = keys)
    (left : (Text.utf8Feed decoder bytes).2 = last)
    (unfinished : ∀ typed, typed <+: keys → (editor.feedAll history typed).1.state.isDone = false) :
    editor.readEvents history decoder written (bytes.map .byte ++ rest) =
      (editor.feedAll history keys).1.readEvents history last
        (written ++ (editor.feedAll history keys).2) rest := by
  subst decoded left
  induction bytes generalizing editor decoder written with
  | nil => simp [Text.utf8Feed, feedAll]
  | cons b bytes ih =>
    cases stepped : Text.utf8Step decoder b with
    | mk decoded next =>
      simp only [Text.utf8Feed, stepped, List.map_append] at unfinished ⊢
      have here (typed : List Char) (part : typed <+: decoded.map Text.shown) :=
        unfinished typed (part.trans (List.prefix_append _ _))
      have later (typed : List Char)
          (part : typed <+: (Text.utf8Feed next bytes).1.map Text.shown) :
          ((editor.feedAll history (decoded.map Text.shown)).1.feedAll history
            typed).1.state.isDone = false := by
        have fed := unfinished (decoded.map Text.shown ++ typed)
          ((List.prefix_append_right_inj _).mpr part)
        rwa [feedAll_append] at fed
      rw [List.map_cons, List.cons_append, readEvents]
      simp only [onEvent, stepped, feedUntilDone_eq_feedAll history here,
        here _ (List.prefix_refl _), Bool.false_eq_true, if_false, ih next _ later, feedAll_append,
        String.append_assoc]

/-- The line is not finished, and nothing was done in it but typing `letters`. -/
structure Typed (editor : Editor) (letters : List Char) : Prop where
  state : editor.state = .editing
  buffer : editor.buffer = ⟨letters, letters.length⟩

theorem Typed.unfinished (typed : editor.Typed letters) : editor.state.isDone = false := by
  rw [typed.state]
  rfl

/-- A printable character is none of the keys that act. -/
theorem feed_printable {c : Char} (state : editor.state = .editing)
    (printable : Text.isPrintable c = true) :
    editor.feed history c = { editor with tabPending := false }.insert [c] := by
  have control : [interruptKey, '\t', '\r', '\n', endKey, '\x7f', '\x08', escapeKey].all
      (fun d => !Text.isPrintable d) = true := by decide
  have other : ∀ d ∈ [interruptKey, '\t', '\r', '\n', endKey, '\x7f', '\x08', escapeKey],
      (c == d) = false := by
    intro d member
    have hidden : Text.isPrintable d = false := by simpa using List.all_eq_true.mp control d member
    exact beq_eq_false_iff_ne.mpr (Screen.isPrintable_ne printable hidden)
  simp only [List.forall_mem_cons] at other
  simp [Editor.feed, feedKey, state, isEnter, isBackspace, other, printable]

theorem Typed.feed {c : Char} (typed : editor.Typed letters)
    (printable : Text.isPrintable c = true) :
    (editor.feed history c).1.Typed (letters ++ [c]) := by
  rw [feed_printable history typed.state printable]
  exact ⟨typed.state, by simp [Editor.insert, EditBuffer.insert, typed.buffer]⟩

theorem Typed.feedAll {keys : List Char} (typed : editor.Typed letters)
    (printable : ∀ c ∈ keys, Text.isPrintable c = true) :
    (editor.feedAll history keys).1.Typed (letters ++ keys) := by
  induction keys generalizing editor letters with
  | nil => simpa [Editor.feedAll] using typed
  | cons c rest ih =>
    have later := ih (typed.feed history (printable c (by simp)))
      fun d member => printable d (by simp [member])
    rw [feedAll_cons]
    simpa using later

/-- The bytes of a line are typed into it, whatever comes after them. -/
theorem Typed.readEvents (typed : editor.Typed letters) {line : List Char}
    (printable : ∀ c ∈ line, Text.isPrintable c = true) (written : String)
    (rest : List TerminalEvent) :
    ∃ (next : Editor) (text : String), next.Typed (letters ++ line) ∧
      editor.readEvents history .start written ((Text.encode line).map .byte ++ rest) =
        next.readEvents history .start text rest := by
  have fed := Text.utf8Feed_encode line
  have decoded : (Text.utf8Feed .start (Text.encode line)).1.map Text.shown = line := by
    rw [fed, List.map_map]
    exact List.map_id line
  refine ⟨_, _, typed.feedAll history printable,
    readEvents_bytes history .start written _ rest decoded (by rw [fed]) fun part shorter => ?_⟩
  exact (typed.feedAll history fun c member => printable c (shorter.subset member)).unfinished

theorem Typed.enter (typed : editor.Typed letters) :
    editor.feed history '\n' = ({ editor with tabPending := false, state := .accepted }, "\n") := by
  simp [Editor.feed, feedKey, typed.state, interruptKey, isEnter]

/-- A newline accepts what was typed, and nothing after it is read for this line. -/
theorem Typed.newline (typed : editor.Typed letters) (written : String)
    (rest : List TerminalEvent) :
    let read := editor.readEvents history .start written (.byte 0x0a :: rest)
    read.1.result = some (String.ofList letters) ∧ read.2.1 = rest := by
  have decoded : Text.utf8Step .start 0x0a = ([some '\n'], .start) := by decide
  rw [Editor.readEvents]
  simp [onEvent, decoded, feedUntilDone, Text.shown, typed.enter, EditState.isDone, result,
    EditBuffer.text, typed.buffer]

/-- Without data the line ends as it is, and the input ends where nothing was typed. -/
theorem Typed.noData (typed : editor.Typed letters) (written : String) :
    let read := editor.readEvents history .start written []
    read.1.result = (if letters = [] then none else some (String.ofList letters)) ∧
      read.2.1 = [] := by
  rw [Editor.readEvents]
  by_cases empty : letters = []
  · have ended : editor.feed history endKey =
        ({ editor with tabPending := false, state := .endOfInput }, "\n") := by
      simp [Editor.feed, feedKey, typed.state, typed.buffer, empty, interruptKey, isEnter, endKey,
        EditBuffer.length]
    simp [noDataKey, typed.buffer, EditBuffer.length, empty, ended, EditState.isDone, result]
  · simp [noDataKey, typed.buffer, EditBuffer.length, empty, typed.enter, EditState.isDone, result,
      EditBuffer.text]

/-- A read takes the first line of what is typed and leaves the rest of the keys. -/
theorem readTerminal_ended (editor : Editor) (prompt : String) {line : List Char}
    (printable : ∀ c ∈ line, Text.isPrintable c = true) (rest : List TerminalEvent) :
    let read := editor.readTerminal history prompt
      ((Text.encode line).map .byte ++ .byte 0x0a :: rest)
    read.1 = .line (String.ofList line) ∧ read.2.2.1 = rest := by
  have begun : (editor.start history.length prompt).1.Typed [] := ⟨rfl, rfl⟩
  obtain ⟨next, text, typed, same⟩ := begun.readEvents history printable
    (editor.start history.length prompt).2 (.byte 0x0a :: rest)
  obtain ⟨accepted, left⟩ := typed.newline history text rest
  simp only [readTerminal, same, accepted, left, List.nil_append, and_self]

theorem readTerminal_last (editor : Editor) (prompt : String) {line : List Char}
    (printable : ∀ c ∈ line, Text.isPrintable c = true) :
    let read := editor.readTerminal history prompt ((Text.encode line).map .byte)
    read.1 = (if line = [] then .endOfInput else .line (String.ofList line)) ∧
      read.2.2.1 = [] := by
  have begun : (editor.start history.length prompt).1.Typed [] := ⟨rfl, rfl⟩
  obtain ⟨next, text, typed, same⟩ := begun.readEvents history printable
    (editor.start history.length prompt).2 []
  obtain ⟨accepted, left⟩ := typed.noData history text
  rw [List.append_nil] at same
  simp only [readTerminal, same, accepted, left, List.nil_append, and_true]
  split <;> simp_all

end Terminal

end Editor

section Plain

theorem plainLines_earlier (done : List PlainEvent) (line text : List Char) :
    plainLines done line text = done.reverse ++ plainLines [] line text := by
  induction text generalizing done line with
  | nil =>
    simp only [plainLines]
    split <;> simp
  | cons c rest ih =>
    simp only [plainLines]
    split
    · rw [ih, ih [_]]
      simp
    · exact ih done (c :: line)

theorem plainLines_ended {line : List Char} (whole : '\n' ∉ line) (begun rest : List Char) :
    plainLines [] begun (line ++ '\n' :: rest) =
      .line (String.ofList (begun.reverse ++ line ++ ['\n'])) :: plainLines [] [] rest := by
  induction line generalizing begun with
  | nil => simp [plainLines, plainLines_earlier [_]]
  | cons c line ih =>
    simp only [List.mem_cons, not_or] at whole
    rw [List.cons_append, plainLines, if_neg (Ne.symm whole.1), ih whole.2]
    simp

theorem plainLines_last {line : List Char} (whole : '\n' ∉ line) (begun : List Char)
    (nonempty : begun ++ line ≠ []) :
    plainLines [] begun line = [.line (String.ofList (begun.reverse ++ line))] := by
  induction line generalizing begun with
  | nil => simp_all [plainLines]
  | cons c line ih =>
    simp only [List.mem_cons, not_or] at whole
    rw [plainLines, if_neg (Ne.symm whole.1), ih whole.2 _ (by simp)]
    simp

theorem dropLineEnd_plain {line : List Char} (plain : ∀ c ∈ line, Text.isLineEnd c = false) :
    Text.dropLineEnd line = line := by
  rw [Text.dropLineEnd]
  cases reversed : line.reverse with
  | nil => simpa using reversed
  | cons c rest =>
    have last : Text.isLineEnd c = false :=
      plain c (List.mem_reverse.mp (reversed ▸ List.mem_cons_self))
    rw [List.dropWhile_cons_of_neg (by simp [last]), ← reversed, List.reverse_reverse]

theorem dropLineEnd_newline {line : List Char} (plain : ∀ c ∈ line, Text.isLineEnd c = false) :
    Text.dropLineEnd (line ++ ['\n']) = line := by
  have newline : Text.isLineEnd '\n' = true := by decide
  have dropped : Text.dropLineEnd (line ++ ['\n']) = Text.dropLineEnd line := by
    simp [Text.dropLineEnd, newline]
  rw [dropped, dropLineEnd_plain plain]

theorem readPlain_ended {line : List Char} (plain : ∀ c ∈ line, Text.isLineEnd c = false)
    (rest : List Char) :
    Editor.readPlain (plainLines [] [] (line ++ '\n' :: rest)) =
      (.line (String.ofList line), plainLines [] [] rest) := by
  have whole : '\n' ∉ line := fun member => by cases plain _ member
  simp [plainLines_ended whole, Editor.readPlain, dropLineEnd_newline plain]

theorem readPlain_last {line : List Char} (plain : ∀ c ∈ line, Text.isLineEnd c = false)
    (nonempty : line ≠ []) :
    Editor.readPlain (plainLines [] [] line) = (.line (String.ofList line), []) := by
  have whole : '\n' ∉ line := fun member => by cases plain _ member
  simp [plainLines_last whole [] nonempty, Editor.readPlain, dropLineEnd_plain plain, nonempty]

end Plain

section Shared

def Unbroken (bytes : Bytes) : Prop :=
  ∀ b ∈ bytes, b ≠ 0x0a ∧ b ≠ 0x0d

theorem encode_unbroken {line : List Char} (plain : ∀ c ∈ line, Text.isLineEnd c = false) :
    Unbroken (Text.encode line) := by
  have apart (b : UInt8) (small : b.toNat < 0x80)
      (ends : Text.isLineEnd (Char.ofNat b.toNat) = true) : b ∉ Text.encode line := by
    intro member
    obtain ⟨c, inside, same⟩ := Text.mem_encode_ascii member small
    rw [← same, Char.ofNat_toNat, plain c inside] at ends
    cases ends
  intro b member
  constructor
  · rintro rfl
    exact apart _ (by decide) (by decide) member
  · rintro rfl
    exact apart _ (by decide) (by decide) member

theorem takeReady_newline {bytes : Bytes} (unbroken : Unbroken bytes) (atEnd : Bool)
    (line rest : Bytes) :
    Editor.takeReady atEnd line (bytes ++ 0x0a :: rest) = some (line.reverse ++ bytes, rest) := by
  induction bytes generalizing line with
  | nil => cases rest <;> simp [Editor.takeReady]
  | cons b bytes ih =>
    have here := unbroken b (by simp)
    have later := ih (fun c member => unbroken c (by simp [member])) (b :: line)
    cases bytes with
    | nil =>
      simp only [List.cons_append, List.nil_append] at later ⊢
      simp [Editor.takeReady, here, later]
    | cons c bytes =>
      simp only [List.cons_append] at later ⊢
      simp [Editor.takeReady, here, later]

theorem takeReady_unbroken {bytes : Bytes} (unbroken : Unbroken bytes) (atEnd : Bool)
    (line : Bytes) :
    Editor.takeReady atEnd line bytes =
      if atEnd then some (line.reverse ++ bytes, []) else none := by
  induction bytes generalizing line with
  | nil => simp [Editor.takeReady]
  | cons b bytes ih =>
    have here := unbroken b (by simp)
    have later := ih (fun c member => unbroken c (by simp [member])) (b :: line)
    cases bytes with
    | nil => simp [Editor.takeReady, here]
    | cons c bytes => simp [Editor.takeReady, here, later]

theorem Unbroken.part {first second : Bytes} (unbroken : Unbroken (first ++ second)) :
    Unbroken first :=
  fun b member => unbroken b (by simp [member])

/-- A line that is taken from the part of the input that is ready ends at the first newline. -/
theorem takeReady_held {bytes ready rest more line left : Bytes} {atEnd : Bool}
    (unbroken : Unbroken bytes) (held : ready ++ rest = bytes ++ 0x0a :: more)
    (taken : Editor.takeReady atEnd [] ready = some (line, left))
    (complete : atEnd = true → rest = []) :
    line = bytes ∧ left ++ rest = more := by
  have early (short : Unbroken ready) (later : rest ≠ []) : False := by
    have unfinished : atEnd = false := Bool.eq_false_iff.mpr fun ends => later (complete ends)
    rw [takeReady_unbroken short, unfinished] at taken
    cases taken
  rcases List.append_eq_append_iff.mp held with ⟨missing, rfl, rfl⟩ | ⟨extra, rfl, following⟩
  · exact (early unbroken.part (by simp)).elim
  · cases extra with
    | nil =>
      rw [List.append_nil] at early
      obtain rfl : 0x0a :: more = rest := following
      exact (early unbroken (by simp)).elim
    | cons b extra =>
      obtain ⟨rfl, rfl⟩ := List.cons.inj following
      rw [takeReady_newline unbroken] at taken
      cases taken
      exact ⟨rfl, rfl⟩

/-- However the input is taken in pieces, the line up to the newline is read and what follows
it is left. -/
theorem readShared_ended {line : List Char} (plain : ∀ c ∈ line, Text.isLineEnd c = false)
    {ready rest more : Bytes} (held : ready ++ rest = Text.encode line ++ 0x0a :: more) :
    ∃ ready' rest', Editor.readShared ready rest =
      (.line (String.ofList line), .shared ready' rest') ∧ ready' ++ rest' = more := by
  have unbroken := encode_unbroken plain
  fun_induction Editor.readShared ready rest with
  | case1 => simp at held
  | case2 ready found present first left parted =>
    obtain ⟨rfl, rfl⟩ := takeReady_held unbroken held parted (fun _ => rfl)
    exact ⟨left, [], by simp [found, Text.decodeReplacing_encode], rfl⟩
  | case3 ready present refused =>
    rw [List.append_nil] at held
    rw [held, takeReady_newline unbroken] at refused
    cases refused
  | case4 ready found b rest first left parted =>
    obtain ⟨rfl, rfl⟩ := takeReady_held unbroken held parted (by simp)
    exact ⟨left, b :: rest, by simp [found, Text.decodeReplacing_encode], rfl⟩
  | case5 ready b rest refused ih =>
    refine ih ?_
    rwa [List.append_assoc, List.take_append_drop]

theorem readShared_last {line : List Char} (plain : ∀ c ∈ line, Text.isLineEnd c = false)
    (nonempty : line ≠ []) {ready rest : Bytes} (held : ready ++ rest = Text.encode line) :
    Editor.readShared ready rest = (.line (String.ofList line), .shared [] []) := by
  have unbroken := encode_unbroken plain
  rw [← held] at unbroken
  fun_induction Editor.readShared ready rest with
  | case1 =>
    have read := Text.decodeReplacing_encode line
    rw [← held] at read
    exact absurd read.symm nonempty
  | case2 ready found present first left parted =>
    rw [takeReady_unbroken unbroken.part] at parted
    cases parted
    rw [List.append_nil] at held
    simp [found, held, Text.decodeReplacing_encode]
  | case3 ready present refused =>
    rw [takeReady_unbroken unbroken.part] at refused
    cases refused
  | case4 ready found b rest first left parted =>
    rw [takeReady_unbroken unbroken.part] at parted
    cases parted
  | case5 ready b rest refused ih =>
    have joined : ready ++ (b :: rest).take Editor.pieceSize ++ (b :: rest).drop Editor.pieceSize =
        ready ++ b :: rest := by
      rw [List.append_assoc, List.take_append_drop]
    exact ih (joined.trans held) (joined.symm ▸ unbroken)

end Shared

/-- The text is what the input has still to give. A terminal gives its bytes one at a time. -/
inductive LineInput.Holds : LineInput → List Char → Prop
  | terminal (text : List Char) : Holds (.terminal ((Text.encode text).map .byte)) text
  | plain (text : List Char) : Holds (.plain (plainLines [] [] text)) text
  | shared {ready rest : Bytes} {text : List Char} (held : ready ++ rest = Text.encode text) :
      Holds (.shared ready rest) text

section Steps

variable (editor : Editor) (history : List String) (prompt : String) {input : LineInput}
  {line : List Char} (printable : ∀ c ∈ line, Text.isPrintable c = true)

include printable in
theorem isLineEnd_printable : ∀ c ∈ line, Text.isLineEnd c = false := by
  intro c member
  have shown := printable c member
  have carriage := Screen.isPrintable_ne shown (d := '\r') (by decide)
  have newline := Screen.isPrintable_ne shown (d := '\n') (by decide)
  simp [Text.isLineEnd, carriage, newline]

include printable in
theorem readLine_ended {rest : List Char} (holds : input.Holds (line ++ '\n' :: rest)) :
    let read := editor.readLine history prompt input
    read.1 = .line (String.ofList line) ∧ read.2.2.1.Holds rest := by
  have encoded : Text.encode (line ++ '\n' :: rest) =
      Text.encode line ++ 0x0a :: Text.encode rest := by
    rw [Text.encode_append]
    rfl
  have plain := isLineEnd_printable printable
  cases holds with
  | terminal =>
    rw [encoded, List.map_append, List.map_cons]
    obtain ⟨result, left⟩ := Editor.readTerminal_ended history editor prompt printable
      ((Text.encode rest).map .byte)
    exact ⟨result, by simpa [Editor.readLine, left] using .terminal rest⟩
  | plain =>
    simpa [Editor.readLine, readPlain_ended plain] using .plain rest
  | shared held =>
    obtain ⟨ready, later, read, left⟩ := readShared_ended plain (held.trans encoded)
    simpa [Editor.readLine, read] using .shared left

include printable in
theorem readLine_last (nonempty : line ≠ []) (holds : input.Holds line) :
    let read := editor.readLine history prompt input
    read.1 = .line (String.ofList line) ∧ read.2.2.1.Holds [] := by
  have plain := isLineEnd_printable printable
  cases holds with
  | terminal =>
    obtain ⟨result, left⟩ := Editor.readTerminal_last history editor prompt printable
    rw [if_neg nonempty] at result
    exact ⟨result, by simpa [Editor.readLine, left] using .terminal []⟩
  | plain =>
    simpa [Editor.readLine, readPlain_last plain nonempty] using .plain []
  | shared held =>
    simpa [Editor.readLine, readShared_last plain nonempty held] using .shared rfl

theorem readLine_nothing (holds : input.Holds []) :
    let read := editor.readLine history prompt input
    read.1 = .endOfInput ∧ read.2.2.1.Holds [] := by
  cases holds with
  | terminal =>
    have none : ∀ c ∈ ([] : List Char), Text.isPrintable c = true := nofun
    obtain ⟨result, left⟩ := Editor.readTerminal_last history editor prompt none
    exact ⟨result, by simpa [Editor.readLine, left] using .terminal []⟩
  | plain => exact ⟨rfl, .plain []⟩
  | shared held =>
    obtain ⟨rfl, rfl⟩ := List.append_eq_nil_iff.mp held
    simpa [Editor.readLine, Editor.readShared] using .shared rfl

end Steps

def lineAt (lines : List String) (number : Nat) : ReadResult :=
  match lines[number]? with
  | some line => .line line
  | none => .endOfInput

theorem lineAt_succ (lines : List String) (number : Nat) :
    lineAt lines (number + 1) = lineAt lines.tail number := by
  simp [lineAt, List.getElem?_tail]

/-- One call takes the first line of the text, if there is one, and leaves the others. -/
theorem readLine_first {text : List Char}
    (shown : ∀ c ∈ text, Text.isPrintable c = true ∨ c = '\n') {input : LineInput}
    (holds : input.Holds text) (editor : Editor) (history : List String) (prompt : String) :
    let read := editor.readLine history prompt input
    read.1 = lineAt (textLines text) 0 ∧
      ∃ rest, rest ⊆ text ∧ textLines rest = (textLines text).tail ∧ read.2.2.1.Holds rest := by
  have printable {line : List Char} (part : line ⊆ text) (whole : '\n' ∉ line) :
      ∀ c ∈ line, Text.isPrintable c = true := fun c member =>
    (shown c (part member)).resolve_right fun newline => whole (newline ▸ member)
  cases lined text with
  | nothing =>
    obtain ⟨result, left⟩ := readLine_nothing editor history prompt holds
    exact ⟨result, [], List.Subset.refl _, rfl, left⟩
  | ended line rest whole =>
    obtain ⟨result, left⟩ := readLine_ended editor history prompt
      (printable (List.subset_append_left _ _) whole) holds
    have others : rest ⊆ line ++ '\n' :: rest := fun c member => by simp [member]
    rw [textLines_ended whole]
    exact ⟨result, rest, others, rfl, left⟩
  | last line whole nonempty =>
    obtain ⟨result, left⟩ := readLine_last editor history prompt
      (printable (List.Subset.refl _) whole) nonempty holds
    rw [textLines_last whole nonempty]
    exact ⟨result, [], List.nil_subset _, rfl, left⟩

/-- One call for a line: the history and the prompt at the time, and what the completer knows. -/
structure ReadCall where
  history : List String
  prompt : String
  completer : Option Completer

def Editor.readEach (editor : Editor) (input : LineInput) : List ReadCall → List ReadResult
  | [] => []
  | call :: calls =>
    let (result, editor, input, _) :=
      { editor with completer := call.completer }.readLine call.history call.prompt input
    result :: editor.readEach input calls

theorem readEach_lines {text : List Char}
    (shown : ∀ c ∈ text, Text.isPrintable c = true ∨ c = '\n') {input : LineInput}
    (holds : input.Holds text) (editor : Editor) (calls : List ReadCall) :
    editor.readEach input calls =
      (List.range calls.length).map (lineAt (textLines text)) := by
  induction calls generalizing text input editor with
  | nil => rfl
  | cons call calls ih =>
    obtain ⟨first, rest, part, lines, left⟩ := readLine_first shown holds
      { editor with completer := call.completer } call.history call.prompt
    have later := ih (fun c member => shown c (part member)) left
    rw [List.length_cons, List.range_succ_eq_map, List.map_cons, List.map_map, Editor.readEach]
    simp only [first, later, lines, Function.comp_def, lineAt_succ]

/-- Keys that are typed and end with no more data are read as the same text is from memory, and
as it is from input that comes in pieces: each line in turn, and then the end of input for every
later call. -/
theorem terminal_lines_as_piped (text : String)
    (shown : ∀ c ∈ text.toList, Text.isPrintable c = true ∨ c = '\n')
    (typing reading sharing : Editor) (calls : List ReadCall) :
    let typed := typing.readEach (.terminal ((Text.encodeText text).map .byte)) calls
    typed = reading.readEach (.plain (plainLines [] [] text.toList)) calls ∧
      typed = sharing.readEach (.shared [] (Text.encodeText text)) calls ∧
      typed = (List.range calls.length).map (lineAt (textLines text.toList)) := by
  have typed := readEach_lines shown (.terminal text.toList) typing calls
  have plain := readEach_lines shown (.plain text.toList) reading calls
  have shared := readEach_lines shown (.shared (List.nil_append (Text.encode text.toList))) sharing
    calls
  exact ⟨typed.trans plain.symm, typed.trans shared.symm, typed⟩

def fiveCalls : List ReadCall :=
  List.replicate 5 ⟨["ls"], "$ ", twoNames.completer⟩

/-- A character of two bytes, an empty line, and a last line that no newline ends. -/
theorem terminal_lines_as_piped_unended :
    (∀ c ∈ "é\n\nlast".toList, Text.isPrintable c = true ∨ c = '\n') ∧
      twoNames.readEach (.terminal ((Text.encodeText "é\n\nlast").map .byte)) fiveCalls =
        twoNames.readEach (.plain [.line "é\n", .line "\n", .line "last"]) fiveCalls ∧
      twoNames.readEach (.terminal ((Text.encodeText "é\n\nlast").map .byte)) fiveCalls =
        [.line "é", .line "", .line "last", .endOfInput, .endOfInput] := by
  have every : "é\n\nlast".toList.all (fun c => Text.isPrintable c || c == '\n') = true := by
    decide +kernel
  have shown : ∀ c ∈ "é\n\nlast".toList, Text.isPrintable c = true ∨ c = '\n' := by
    simpa only [List.all_eq_true, Bool.or_eq_true, beq_iff_eq] using every
  obtain ⟨plain, -, lines⟩ := terminal_lines_as_piped "é\n\nlast" shown twoNames twoNames twoNames
    fiveCalls
  exact ⟨shown, plain, lines⟩

end CommandShell
