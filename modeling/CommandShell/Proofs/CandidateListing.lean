import CommandShell.Proofs.CompletionOutcome
import CommandShell.Proofs.KeyEffect
import CommandShell.Proofs.LineReading

/-! When the candidates of a completion are listed. The first Tab at a choice rings and the second
one lists, so the Tabs of an unbroken run take turns. What keeps the turns apart is that a Tab is
remembered only until the next key: as long as the line is not finished, a pending Tab means that
the editor still stands at the choice where it was pressed. -/
namespace CommandShell

namespace Editor

def completion? (editor : Editor) : Option Completion :=
  editor.completer.map fun completer => completer.complete editor.buffer.text

structure AtChoice (editor : Editor) (names : List String) : Prop where
  state : editor.state = .editing
  atEnd : editor.buffer.atEnd = true
  choice : editor.completion? = some (.ambiguous names)

def MeetsChoice (editor : Editor) (c : Char) : Prop :=
  c = '\t' ∧ ∃ names, editor.AtChoice names

def listing (names : List String) (editor : Editor) : String :=
  "\n" ++ "  ".intercalate names ++ "\n" ++ editor.redrawn

/-- What is written for a key that does not change the line, rubs out its last character, moves one
place or finishes the line. -/
def lineMarks : List String :=
  ["", bell, "\x08 \x08", "\x08", "\x1b[C", "\n", "^C\n"]

/-- All that a key can write besides a listing: a mark, an echo of what it inserts, or the line once
more. -/
inductive Marks (before after : Editor) : String → Prop
  | mark {text : String} (known : text ∈ lineMarks) : Marks before after text
  | echo (text : List Char) (inserted : after.buffer = before.buffer.insert text) :
      Marks before after (String.ofList text)
  | redraw : Marks before after after.redrawn

theorem length_redrawn (editor : Editor) :
    clearLine.length + editor.buffer.length ≤ editor.redrawn.length := by
  simp only [redrawn, String.length_append, EditBuffer.text, EditBuffer.length,
    String.length_ofList]
  omega

/-- Every listing is longer than what it could be taken for: it holds the whole line. -/
theorem Marks.ne_listing {before after : Editor} {text : String} (marks : Marks before after text)
    (names : List String) : text ≠ listing names after := by
  have drawn := after.length_redrawn
  have clear : clearLine.length = 4 := by decide
  have newline : "\n".length = 1 := by decide
  have long : 2 + after.redrawn.length ≤ (listing names after).length := by
    simp only [listing, String.length_append]
    omega
  rintro rfl
  generalize whole : listing names after = text at marks long
  cases marks with
  | mark known =>
    have short : ∀ mark ∈ lineMarks, mark.length ≤ 3 := by decide
    have := short text known
    omega
  | echo letters inserted =>
    -- The line below the candidates already holds the text that was inserted.
    rw [inserted] at drawn
    simp only [EditBuffer.length, EditBuffer.insert, List.length_append] at drawn
    rw [String.length_ofList] at long
    omega
  | redraw => omega

/-- An operation that lists nothing, and leaves what is completed and a pending Tab alone. -/
structure Quiet (before : Editor) (fed : Editor × String) : Prop where
  completer : fed.1.completer = before.completer
  pending : fed.1.tabPending = before.tabPending
  marks : Marks before fed.1 fed.2

theorem Marks.of_eq {before other after : Editor} {text : String} (marks : Marks other after text)
    (buffer : other.buffer = before.buffer) : Marks before after text := by
  cases marks with
  | mark known => exact .mark known
  | echo text inserted => exact .echo text (by rw [inserted, buffer])
  | redraw => exact .redraw

theorem Quiet.of_eq {before other : Editor} {fed : Editor × String} (quiet : Quiet other fed)
    (completer : other.completer = before.completer)
    (pending : other.tabPending = before.tabPending) (buffer : other.buffer = before.buffer) :
    Quiet before fed :=
  ⟨quiet.completer.trans completer, quiet.pending.trans pending, quiet.marks.of_eq buffer⟩

section Operations

variable (editor : Editor)

theorem insert_quiet (text : List Char) : Quiet editor (editor.insert text) := by
  refine ⟨rfl, rfl, ?_⟩
  rw [insert]
  split
  · exact .echo text rfl
  · exact .redraw

theorem backspace_quiet : Quiet editor editor.backspace := by
  rw [backspace]
  split
  · exact ⟨rfl, rfl, .mark (by simp [lineMarks])⟩
  · refine ⟨rfl, rfl, ?_⟩
    dsimp only
    split
    · exact .mark (by simp [lineMarks])
    · exact .redraw

theorem cursorLeft_quiet : Quiet editor editor.cursorLeft := by
  rw [cursorLeft]
  split
  · exact ⟨rfl, rfl, .mark (by simp [lineMarks])⟩
  · exact ⟨rfl, rfl, .mark (by simp [lineMarks])⟩

theorem cursorRight_quiet : Quiet editor editor.cursorRight := by
  rw [cursorRight]
  split
  · exact ⟨rfl, rfl, .mark (by simp [lineMarks])⟩
  · exact ⟨rfl, rfl, .mark (by simp [lineMarks])⟩

theorem historyUp_quiet (history : List String) : Quiet editor (editor.historyUp history) := by
  rw [historyUp]
  split
  · exact ⟨rfl, rfl, .mark (by simp [lineMarks])⟩
  · exact ⟨rfl, rfl, .redraw⟩

theorem historyDown_quiet (history : List String) : Quiet editor (editor.historyDown history) := by
  rw [historyDown]
  split
  · exact ⟨rfl, rfl, .mark (by simp [lineMarks])⟩
  · exact ⟨rfl, rfl, .redraw⟩

theorem feedEscape_quiet (history : List String) (c : Char) :
    Quiet editor (editor.feedEscape history c) := by
  unfold feedEscape
  split
  · split
    · exact ⟨rfl, rfl, .mark (by simp [lineMarks])⟩
    · exact ⟨rfl, rfl, .mark (by simp [lineMarks])⟩
  · split
    · exact ⟨rfl, rfl, .mark (by simp [lineMarks])⟩
    · dsimp only
      split
      · exact ⟨rfl, rfl, .mark (by simp [lineMarks])⟩
      · split
        · exact (historyUp_quiet _ history).of_eq rfl rfl rfl
        · exact (historyDown_quiet _ history).of_eq rfl rfl rfl
        · exact (cursorRight_quiet _).of_eq rfl rfl rfl
        · exact (cursorLeft_quiet _).of_eq rfl rfl rfl
        · exact ⟨rfl, rfl, .redraw⟩
        · exact ⟨rfl, rfl, .redraw⟩
        · exact ⟨rfl, rfl, .mark (by simp [lineMarks])⟩

/-- Any key but a Tab forgets a Tab before it. -/
theorem feedKey_quiet {c : Char} (other : c ≠ '\t') :
    Quiet { editor with tabPending := false } (editor.feedKey c) := by
  have tab : (c == '\t') = false := beq_eq_false_iff_ne.mpr other
  simp only [feedKey, tab, Bool.false_eq_true, if_false]
  split
  · exact ⟨rfl, rfl, .mark (by simp [lineMarks])⟩
  · split
    · split
      · exact ⟨rfl, rfl, .mark (by simp [lineMarks])⟩
      · exact ⟨rfl, rfl, .mark (by simp [lineMarks])⟩
    · split
      · exact backspace_quiet _
      · split
        · exact ⟨rfl, rfl, .mark (by simp [lineMarks])⟩
        · split
          · exact insert_quiet _ _
          · exact ⟨rfl, rfl, .mark (by simp [lineMarks])⟩

variable {editor}

/-- Away from a choice a Tab lists nothing and is not remembered. -/
theorem complete_quiet (state : editor.state = .editing) (calm : editor.tabPending = false)
    (free : ∀ names, ¬ editor.AtChoice names) : Quiet editor editor.complete := by
  unfold complete
  split
  next completer known atEnd =>
    split
    · exact (insert_quiet _ _).of_eq rfl calm.symm rfl
    · exact (insert_quiet _ _).of_eq rfl calm.symm rfl
    next names outcome =>
      exact absurd ⟨state, atEnd, by simp [completion?, known, outcome]⟩ (free names)
    · exact ⟨rfl, rfl, .mark (by simp [lineMarks])⟩
  · exact ⟨rfl, rfl, .mark (by simp [lineMarks])⟩

end Operations

section Keys

variable (history : List String) {editor : Editor} {known names : List String}

theorem feed_interrupt (busy : editor.state ≠ .idle) :
    editor.feed history interruptKey =
      ({ editor with buffer := {}, state := .aborted }, "^C\n") := by
  simp [feed, busy]

/-- A Tab at a choice rings, and lists if it follows one that rang. -/
theorem AtChoice.feed_tab (choice : editor.AtChoice names) :
    editor.feed history '\t' = ({ editor with tabPending := !editor.tabPending },
      if editor.tabPending then listing names { editor with tabPending := !editor.tabPending }
      else bell) := by
  obtain ⟨state, atEnd, choice⟩ := choice
  obtain ⟨completer, known, outcome⟩ := Option.map_eq_some_iff.mp choice
  have completes : editor.feed history '\t' = editor.complete := by
    simp [feed, feedKey, state, interruptKey, isEnter, endKey, isBackspace]
  rw [completes, complete, known, atEnd]
  simp only [outcome, listing]
  cases editor.tabPending with
  | false => rfl
  | true => rfl

theorem AtChoice.pending (choice : editor.AtChoice names) (pending : Bool) :
    { editor with tabPending := pending }.AtChoice names :=
  ⟨choice.state, choice.atEnd, choice.choice⟩

/-- The names to choose from are those that start with the line, in order. -/
theorem AtChoice.lists (choice : editor.AtChoice names)
    (indexed : ∀ completer, editor.completer = some completer → completer.index = .ofNames known) :
    Lists known editor.buffer.text names := by
  obtain ⟨completer, found, outcome⟩ := Option.map_eq_some_iff.mp choice.choice
  have nonempty : editor.buffer.text ≠ "" := by
    intro empty
    simp [empty, Completer.complete] at outcome
  have unbroken : ∀ c ∈ editor.buffer.text.toList, Text.isBlank c = false := by
    by_contra broken
    simp [Completer.complete_blank broken] at outcome
  cases (Completer.complete_iff (indexed completer found) nonempty unbroken _).mp outcome with
  | ambiguous _ all _ => exact all

/-- What holds as long as the line is not finished: the names are the ones it was begun with, and a
Tab that is remembered was pressed right before, at a choice. -/
structure Poised (known : List String) (editor : Editor) : Prop where
  composing : editor.Composing
  indexed : ∀ completer, editor.completer = some completer → completer.index = .ofNames known
  remembered : editor.tabPending = true → ∃ names, editor.AtChoice names

namespace Poised

variable (poised : editor.Poised known) {c : Char}

include poised

theorem calm (free : ∀ names, ¬ editor.AtChoice names) : editor.tabPending = false := by
  by_contra pending
  obtain ⟨names, choice⟩ := poised.remembered (by simpa using pending)
  exact free names choice

/-- Any key but a Tab at a choice lists nothing, and no Tab is remembered after it. -/
theorem feed_other (other : ¬ editor.MeetsChoice c) :
    (editor.feed history c).1.completer = editor.completer ∧
      Marks editor (editor.feed history c).1 (editor.feed history c).2 ∧
      ((editor.feed history c).1.state.isDone = false →
        (editor.feed history c).1.tabPending = false) := by
  have busy : editor.state ≠ .idle := by
    rcases poised.composing with state | state <;> simp [state]
  by_cases interrupt : c = interruptKey
  · subst interrupt
    rw [feed_interrupt history busy]
    exact ⟨rfl, .mark (by simp [lineMarks]), by simp [EditState.isDone]⟩
  · rcases poised.composing with editing | inside
    · by_cases tab : c = '\t'
      · -- Without a choice no Tab was remembered, and this one is not either.
        have free : ∀ names, ¬ editor.AtChoice names := fun names choice =>
          other ⟨tab, names, choice⟩
        have calm := poised.calm free
        have completes : editor.feed history c = editor.complete := by
          simp [feed, feedKey, editing, tab, interruptKey, isEnter, endKey, isBackspace]
        have quiet := complete_quiet editing calm free
        rw [completes]
        exact ⟨quiet.completer, quiet.marks, fun _ => quiet.pending.trans calm⟩
      · have typed : editor.feed history c = editor.feedKey c := by
          simp [feed, editing, interrupt]
        have quiet := editor.feedKey_quiet tab
        rw [typed]
        exact ⟨quiet.completer, quiet.marks.of_eq rfl, fun _ => quiet.pending⟩
    · have free : ∀ names, ¬ editor.AtChoice names := by
        intro names choice
        rw [choice.state] at inside
        cases inside
      have escaped : editor.feed history c = editor.feedEscape history c := by
        simp [feed, inside, interrupt]
      have quiet := feedEscape_quiet editor history c
      rw [escaped]
      exact ⟨quiet.completer, quiet.marks, fun _ => quiet.pending.trans (poised.calm free)⟩

/-- One key more. -/
theorem press (unfinished : (editor.feed history c).1.state.isDone = false) :
    (editor.feed history c).1.Poised known := by
  have composing : (editor.feed history c).1.Composing := by
    rcases feed_finishes_or_composing poised.composing history c with ⟨-, done⟩ | composing
    · rw [unfinished] at done
      cases done
    · exact composing
  by_cases meets : editor.MeetsChoice c
  · obtain ⟨rfl, names, choice⟩ := meets
    rw [choice.feed_tab] at composing ⊢
    exact ⟨composing, poised.indexed, fun _ => ⟨names, choice.pending _⟩⟩
  · obtain ⟨completer, -, forgotten⟩ := poised.feed_other history meets
    refine ⟨composing, ?_, ?_⟩
    · rw [completer]
      exact poised.indexed
    · rw [forgotten unfinished]
      intro pending
      cases pending

end Poised

def Unfinished (history : List String) (begun : Editor) (keys : List Char) : Prop :=
  ∀ part, part <+: keys → (begun.feedAll history part).1.state.isDone = false

variable {history} {begun : Editor} {keys earlier : List Char} {count : Nat}

theorem Unfinished.front {c : Char} (unfinished : Unfinished history begun (keys ++ [c])) :
    Unfinished history begun keys :=
  fun part shorter => unfinished part (shorter.trans (List.prefix_append _ _))

theorem Poised.pressAll (poised : begun.Poised known) (unfinished : Unfinished history begun keys) :
    (begun.feedAll history keys).1.Poised known := by
  induction keys generalizing begun with
  | nil => exact poised
  | cons c rest ih =>
    have here : (begun.feed history c).1.state.isDone = false := by
      have fed := unfinished [c] (by simp)
      rwa [feedAll_cons] at fed
    have later : Unfinished history (begun.feed history c).1 rest := by
      intro part shorter
      have fed := unfinished (c :: part) (by simpa using shorter)
      rwa [feedAll_cons] at fed
    rw [feedAll_cons]
    exact ih (poised.press history here) later

/-- After `earlier` come `count` Tabs that each meet a choice, and the key before them is no such
Tab. -/
structure TabBlock (history : List String) (begun : Editor) (earlier : List Char) (count : Nat) :
    Prop where
  choices : ∀ i < count, ∃ names,
    (begun.feedAll history (earlier ++ List.replicate i '\t')).1.AtChoice names
  first : ∀ front c, earlier = front ++ [c] → ¬ (begun.feedAll history front).1.MeetsChoice c

theorem feedAll_tab (begun : Editor) (earlier : List Char) (i : Nat) :
    (begun.feedAll history (earlier ++ List.replicate (i + 1) '\t')).1 =
      ((begun.feedAll history (earlier ++ List.replicate i '\t')).1.feed history '\t').1 := by
  rw [List.replicate_succ', ← List.append_assoc, feedAll_snoc]

namespace TabBlock

variable (block : TabBlock history begun earlier count)

include block

/-- A block begins with no Tab remembered. -/
theorem starts_calm (poised : begun.Poised known) (fresh : begun.tabPending = false)
    (unfinished : Unfinished history begun earlier) :
    (begun.feedAll history earlier).1.tabPending = false := by
  rcases List.eq_nil_or_concat earlier with rfl | ⟨front, c, rfl⟩
  · exact fresh
  · rw [List.concat_eq_append] at unfinished block ⊢
    have last := unfinished (front ++ [c]) (List.prefix_refl _)
    have before := poised.pressAll unfinished.front
    rw [feedAll_snoc] at last ⊢
    exact (before.feed_other history (block.first front c rfl)).2.2 last

theorem poised (begins : (begun.feedAll history earlier).1.Poised known) {i : Nat}
    (inside : i ≤ count) :
    (begun.feedAll history (earlier ++ List.replicate i '\t')).1.Poised known := by
  induction i with
  | zero => simpa using begins
  | succ i ih =>
    obtain ⟨names, choice⟩ := block.choices i inside
    rw [feedAll_tab]
    apply (ih (Nat.le_of_succ_le inside)).press
    rw [choice.feed_tab, choice.state]
    rfl

/-- Every other Tab of a block finds the one before it remembered. -/
theorem alternates (calm : (begun.feedAll history earlier).1.tabPending = false) {i : Nat}
    (inside : i ≤ count) :
    (begun.feedAll history (earlier ++ List.replicate i '\t')).1.tabPending =
      decide (i % 2 = 1) := by
  induction i with
  | zero => simpa using calm
  | succ i ih =>
    obtain ⟨names, choice⟩ := block.choices i inside
    rw [feedAll_tab, choice.feed_tab, ih (Nat.le_of_succ_le inside)]
    rcases Nat.mod_two_eq_zero_or_one i with even | odd
    · simp [even, Nat.add_mod]
    · simp [odd, Nat.add_mod]

/-- The Tabs of a block ring and list by turns. -/
theorem feed_tab (calm : (begun.feedAll history earlier).1.tabPending = false) {i : Nat}
    (inside : i < count)
    (choice : (begun.feedAll history (earlier ++ List.replicate i '\t')).1.AtChoice names) :
    let fed := (begun.feedAll history (earlier ++ List.replicate i '\t')).1.feed history '\t'
    fed.2 = if i % 2 = 0 then bell else listing names fed.1 := by
  have pending := block.alternates calm (Nat.le_of_lt inside)
  rw [choice.feed_tab, pending]
  rcases Nat.mod_two_eq_zero_or_one i with even | odd
  · simp [even]
  · simp [odd]

end TabBlock

end Keys

def knownNames (editor : Editor) (machine : Machine) (path : String) : List String :=
  match editor.completer, programsOn machine path with
  | some completer, .ok programs => programs ++ completer.builtins
  | _, _ => []

theorem refresh_indexed {editor ready : Editor} {machine : Machine} {path : String}
    {events : List TerminalEvent}
    (looked : editor.refresh machine path (.terminal events) = .ok ready) :
    ∀ completer, ready.completer = some completer →
      completer.index = .ofNames (editor.knownNames machine path) := by
  intro completer found
  cases before : editor.completer with
  | none =>
    simp only [refresh, before, Except.ok.injEq] at looked
    rw [← looked, before] at found
    cases found
  | some old =>
    cases programs : programsOn machine path with
    | error fault => simp [refresh, before, Completer.refresh, programs] at looked
    | ok programs' =>
      simp only [refresh, before, Completer.refresh, programs, Except.ok.injEq] at looked
      rw [← looked] at found
      cases found
      simp [knownNames, before, programs]

/-- Candidates are listed by the second of two Tabs and by nothing else. After a line is begun, the
Tabs of an unbroken run that each meet a choice ring and list by turns, starting with a ring,
whatever keys came before; a listing has the names that start with the line, sorted, and none of
these Tabs changes the line. Every other key writes a mark, an echo or the line itself, which is no
listing. -/
theorem candidates_listed_by_every_second_tab {editor ready : Editor} {machine : Machine}
    {path : String} {events : List TerminalEvent}
    (looked : editor.refresh machine path (.terminal events) = .ok ready) (prompt : String)
    (history : List String) :
    let begun := (ready.start history.length prompt).1
    (∀ earlier count, Unfinished history begun earlier → TabBlock history begun earlier count →
      ∀ i < count, ∃ names,
        let before := (begun.feedAll history (earlier ++ List.replicate i '\t')).1
        let after := (before.feed history '\t').1
        before.AtChoice names ∧ Lists (editor.knownNames machine path) before.buffer.text names ∧
        after.buffer = before.buffer ∧
        (before.feed history '\t').2 = if i % 2 = 0 then bell else listing names after) ∧
    ∀ keys c, Unfinished history begun keys →
      let before := (begun.feedAll history keys).1
      let after := (before.feed history c).1
      ¬ before.MeetsChoice c → Marks before after (before.feed history c).2 ∧
        ∀ names, (before.feed history c).2 ≠ listing names after := by
  intro begun
  have indexed := refresh_indexed looked
  have poised : begun.Poised (editor.knownNames machine path) :=
    ⟨.inl rfl, indexed, fun pending => by cases pending⟩
  constructor
  · intro earlier count unfinished block i inside
    have calm := block.starts_calm poised rfl unfinished
    have here := block.poised (poised.pressAll unfinished) (Nat.le_of_lt inside)
    obtain ⟨names, choice⟩ := block.choices i inside
    refine ⟨names, choice, choice.lists here.indexed, ?_, block.feed_tab calm inside choice⟩
    rw [choice.feed_tab]
  · intro keys c unfinished before after other
    obtain ⟨-, marks, -⟩ := (poised.pressAll unfinished).feed_other history other
    exact ⟨marks, marks.ne_listing⟩

def twoPrograms : Machine :=
  { files := ⟨[(["bin"], .directory), (["bin", "cat"], .file [] true),
      (["bin", "cargo"], .file [] true)]⟩
    directory := "/" }

def beforePrograms : Editor :=
  new 0 (some (Completer.ofBuiltins ["exit"]))

def afterPrograms : Editor :=
  { beforePrograms with completer := some ⟨["exit"], .ofNames ["cat", "cargo", "exit"]⟩ }

/-- The first Tab extends the line and the second one rings; then the run of Tabs is broken by a
letter that is taken back. -/
def brokenRun : List Char :=
  ['c', '\t', '\t', 'x', '\x7f']

/-- The run after the break starts with a ring again. -/
theorem candidates_listed_by_every_second_tab_broken :
    let begun := (afterPrograms.start 0 "$ ").1
    beforePrograms.refresh twoPrograms "/bin" (.terminal []) = .ok afterPrograms ∧
      Unfinished [] begun brokenRun ∧ TabBlock [] begun brokenRun 2 ∧
      ((begun.feedAll [] brokenRun).1.feed [] '\t').2 = bell ∧
      ((begun.feedAll [] (brokenRun ++ ['\t'])).1.feed [] '\t').2 =
        "\ncargo  cat\n\r\x1b[K$ ca" ∧
      ((begun.feedAll [] ['c', '\t', '\t']).1.feed [] 'x').2 ≠
        listing ["cargo", "cat"] ((begun.feedAll [] ['c', '\t', '\t']).1.feed [] 'x').1 := by
  intro begun
  have looked : beforePrograms.refresh twoPrograms "/bin" (.terminal []) = .ok afterPrograms := by
    have entries : Session.searchPath "/bin" = ["/bin"] := by decide +kernel
    have plain : Path.hasNul "/bin" = false := by decide +kernel
    have found : programsIn twoPrograms "/bin" = ["cat", "cargo"] := by decide +kernel
    simp [refresh, beforePrograms, new, Completer.refresh, programsOn, entries, plain, found,
      Completer.ofBuiltins, afterPrograms]
  have typed : ∀ count ≤ 5,
      (begun.feedAll [] (brokenRun.take count)).1.state.isDone = false := by decide +kernel
  have unfinished : Unfinished [] begun brokenRun := by
    intro part shorter
    rw [List.prefix_iff_eq_take.mp shorter]
    exact typed _ shorter.length_le
  have choices : ∀ i < 2,
      (begun.feedAll [] (brokenRun ++ List.replicate i '\t')).1.state = .editing ∧
      (begun.feedAll [] (brokenRun ++ List.replicate i '\t')).1.buffer.atEnd = true ∧
      (begun.feedAll [] (brokenRun ++ List.replicate i '\t')).1.completion? =
        some (.ambiguous ["cargo", "cat"]) := by decide +kernel
  have block : TabBlock [] begun brokenRun 2 := by
    refine ⟨fun i inside => ?_, fun front c last meets => ?_⟩
    · obtain ⟨state, atEnd, choice⟩ := choices i inside
      exact ⟨["cargo", "cat"], state, atEnd, choice⟩
    · have split : front ++ [c] = ['c', '\t', '\t', 'x'] ++ ['\x7f'] := last.symm
      obtain ⟨-, erased⟩ := List.append_inj' split rfl
      cases erased
      exact absurd meets.1 (by decide)
  obtain ⟨tabs, others⟩ := candidates_listed_by_every_second_tab looked "$ " []
  obtain ⟨_, -, -, -, rings⟩ := tabs brokenRun 2 unfinished block 0 (by decide)
  obtain ⟨names, chosen, -, -, lists⟩ := tabs brokenRun 2 unfinished block 1 (by decide)
  obtain ⟨-, letter⟩ := others ['c', '\t', '\t'] 'x'
    (fun part shorter => unfinished part (shorter.trans (by decide)))
    (fun meets => absurd meets.1 (by decide))
  have same : names = ["cargo", "cat"] := by
    have both := chosen.choice.symm.trans (choices 1 (by decide)).2.2
    simpa using both
  subst same
  exact ⟨looked, unfinished, block, rings, lists.trans (by decide +kernel), letter _⟩

end Editor

end CommandShell
