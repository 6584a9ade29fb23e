import CommandShell.Proofs.KeyEffect
import CommandShell.Proofs.LineReading

/-! Reading a line from a terminal, one event after the other. A read without data stands for a key
that ends the line or the input; an escape sequence may swallow it, but not the next one, so a line
ends by the second read without data. The bytes of a line act by the characters that they decode
to: a byte may give a mark for a malformed part and a character at once, but only the last
character of a byte can finish the line. -/
namespace CommandShell

namespace Text

/-- The characters that have come with the bytes. The part of a character that is not complete
yet gives none. -/
def arrived (bytes : Bytes) : List Char :=
  (utf8Feed .start bytes).1.map shown

theorem decodeReplacing_eq_arrived (bytes : Bytes) :
    decodeReplacing bytes =
      arrived bytes ++ (utf8Finish (utf8Feed .start bytes).2).map shown := by
  rw [decodeReplacing, utf8Run_feed, List.map_append, arrived]

/-- What a byte gives: marks, and then perhaps a character, after which the decoder is between two
characters. -/
def Given (given : List Decoded × Utf8State) : Prop :=
  ∃ marks : List Decoded, (∀ mark ∈ marks, mark = none) ∧
    (given.1 = marks ∨ (∃ c, given.1 = marks ++ [some c]) ∧ given.2 = .start)

theorem given_nothing (next : Utf8State) : Given ([], next) :=
  ⟨[], by simp, .inl rfl⟩

theorem given_character (c : Char) : Given ([some c], .start) :=
  ⟨[], by simp, .inr ⟨⟨c, rfl⟩, rfl⟩⟩

theorem given_mark {given : List Decoded × Utf8State} (after : Given given) :
    Given (none :: given.1, given.2) := by
  obtain ⟨marks, unknown, rest⟩ := after
  refine ⟨none :: marks, by simpa using unknown, ?_⟩
  rcases rest with only | ⟨⟨c, last⟩, boundary⟩
  · exact .inl (by rw [only])
  · exact .inr ⟨⟨c, by simp [last]⟩, boundary⟩

theorem given_ite {p : Prop} [Decidable p] {first second : List Decoded × Utf8State}
    (yes : Given first) (no : Given second) : Given (if p then first else second) := by
  by_cases holds : p
  · rwa [if_pos holds]
  · rwa [if_neg holds]

theorem utf8Start_given (b : UInt8) : Given (utf8Start b) := by
  have malformed := given_mark (given_nothing .start)
  have opened (next : Utf8State) {p : Prop} [Decidable p] {other : List Decoded × Utf8State}
      (no : Given other) : Given (if p then ([], next) else other) :=
    given_ite (given_nothing next) no
  refine given_ite (given_character _) (given_ite malformed ?_)
  exact opened _ (opened _ (opened _ (opened _ (opened _ (opened _ (opened _ malformed))))))

theorem utf8Step_given (state : Utf8State) (b : UInt8) : Given (utf8Step state b) := by
  cases state with
  | start => exact utf8Start_given b
  | inside more low high value =>
    rw [utf8Step]
    split
    · cases more with
      | zero => exact given_character _
      | succ more => exact given_nothing _
    · exact given_mark (utf8Start_given b)

/-- A character that is no mark is the last that its byte gives. -/
theorem given_last {given : List Decoded × Utf8State} (byte : Given given) {part : List Char}
    {c : Char} (proper : c ≠ replacement) (starts : part ++ [c] <+: given.1.map shown) :
    part ++ [c] = given.1.map shown ∧ given.2 = .start := by
  obtain ⟨marks, unknown, rest⟩ := byte
  have absent : ¬ part ++ [c] <+: marks.map shown := by
    intro within
    obtain ⟨mark, member, same⟩ := List.mem_map.mp (within.subset (by simp : c ∈ part ++ [c]))
    rw [unknown mark member] at same
    exact proper same.symm
  rcases rest with only | ⟨⟨last, ends⟩, boundary⟩
  · rw [only] at starts
    exact absurd starts absent
  · rw [ends, List.map_append] at starts ⊢
    exact ⟨(List.prefix_concat_iff.mp starts).resolve_right absent, boundary⟩

end Text

namespace Editor

variable {history : List String} {editor : Editor}

section Keys

structure FinishedBy (history : List String) (editor : Editor) (keys : List Char) : Prop where
  done : (editor.feedAll history keys).1.state.isDone = true
  first : ∀ part, part <+: keys → part ≠ keys →
    (editor.feedAll history part).1.state.isDone = false

namespace FinishedBy

variable {first more : List Char}

/-- After some of the keys, the others finish the line. -/
theorem rest (finished : FinishedBy history editor (first ++ more)) :
    FinishedBy history (editor.feedAll history first).1 more := by
  constructor
  · have done := finished.done
    rwa [feedAll_append] at done
  · intro part shorter other
    have unfinished := finished.first (first ++ part) ((List.prefix_append_right_inj _).mpr shorter)
      (by simpa using other)
    rwa [feedAll_append] at unfinished

theorem unfinished (finished : FinishedBy history editor (first ++ more)) (later : more ≠ []) :
    ∀ part, part <+: first → (editor.feedAll history part).1.state.isDone = false := by
  intro part shorter
  refine finished.first part (shorter.trans (List.prefix_append _ _)) ?_
  rintro rfl
  have length := shorter.length_le
  have positive := List.length_pos_iff.mpr later
  rw [List.length_append] at length
  omega

theorem append (unfinished : ∀ part, part <+: first →
      (editor.feedAll history part).1.state.isDone = false)
    (finished : FinishedBy history (editor.feedAll history first).1 more) :
    FinishedBy history editor (first ++ more) := by
  constructor
  · rw [feedAll_append]
    exact finished.done
  · intro part shorter other
    rcases List.prefix_or_prefix_of_prefix shorter (List.prefix_append first more) with
      within | ⟨beyond, rfl⟩
    · exact unfinished part within
    · rw [feedAll_append]
      exact finished.first beyond ((List.prefix_append_right_inj _).mp shorter)
        (by simpa using other)

theorem nil (done : editor.state.isDone = true) : FinishedBy history editor [] := by
  refine ⟨done, ?_⟩
  intro part shorter other
  exact absurd (List.prefix_nil.mp shorter) other

theorem cons {c : Char} (composing : editor.Composing)
    (finished : FinishedBy history (editor.feed history c).1 more) :
    FinishedBy history editor (c :: more) := by
  constructor
  · rw [feedAll_cons]
    exact finished.done
  · intro part shorter other
    rcases List.prefix_cons_iff.mp shorter with rfl | ⟨beyond, rfl, within⟩
    · exact composing.not_isDone
    · rw [feedAll_cons]
      exact finished.first beyond within (by simpa using other)

end FinishedBy

/-- A line is composed as long as no key finishes it. -/
theorem Composing.feedAll {keys : List Char} (composing : editor.Composing)
    (unfinished : ∀ part, part <+: keys → (editor.feedAll history part).1.state.isDone = false) :
    (editor.feedAll history keys).1.Composing := by
  induction keys generalizing editor with
  | nil => exact composing
  | cons c rest ih =>
    have here : (editor.feed history c).1.Composing := by
      rcases feed_finishes_or_composing composing history c with ⟨-, done⟩ | composing
      · have fed := unfinished [c] (by simp)
        rw [feedAll_cons] at fed
        exact absurd done (Bool.eq_false_iff.mp fed)
      · exact composing
    rw [feedAll_cons]
    refine ih here fun part shorter => ?_
    have fed := unfinished (c :: part) (by simpa using shorter)
    rwa [feedAll_cons] at fed

theorem not_mayFinish_replacement (editor : Editor) : ¬ editor.MayFinish Text.replacement := by
  have other : Text.replacement ≠ interruptKey ∧ isEnter Text.replacement = false ∧
      Text.replacement ≠ endKey := by decide
  simp [MayFinish, other]

/-- The last of the keys that finish a line is no mark of a malformed part. -/
theorem FinishedBy.last {keys : List Char} (composing : editor.Composing)
    (finished : editor.FinishedBy history keys) :
    ∃ part c, keys = part ++ [c] ∧ c ≠ Text.replacement := by
  rcases List.eq_nil_or_concat keys with rfl | ⟨part, c, rfl⟩
  · exact absurd finished.done (Bool.eq_false_iff.mp composing.not_isDone)
  · rw [List.concat_eq_append] at finished ⊢
    have before : (editor.feedAll history part).1.Composing :=
      composing.feedAll (finished.unfinished (by simp))
    have done := finished.done
    rw [feedAll_snoc] at done
    refine ⟨part, c, rfl, ?_⟩
    rintro rfl
    rcases feed_finishes_or_composing before history Text.replacement with ⟨may, -⟩ | still
    · exact not_mayFinish_replacement _ may
    · exact absurd done (Bool.eq_false_iff.mp still.not_isDone)

/-- Keys that are fed until the line is finished are all fed if they finish it no sooner. -/
theorem FinishedBy.feedUntilDone {keys : List Char} (finished : FinishedBy history editor keys) :
    editor.feedUntilDone history keys = editor.feedAll history keys := by
  induction keys generalizing editor with
  | nil => rfl
  | cons c rest ih =>
    have split : FinishedBy history editor ([c] ++ rest) := finished
    have later : FinishedBy history (editor.feed history c).1 rest := split.rest
    have fed := ih later
    rw [feedAll_cons, Editor.feedUntilDone]
    cases rest with
    | nil => simp [feedAll, Editor.feedUntilDone]
    | cons d rest =>
      have here : (editor.feed history c).1.state.isDone = false :=
        split.unfinished (by simp) [c] (by simp)
      simp [here, fed]

end Keys

/-- Bytes that finish the line are read up to the one that does. All characters that they decode to
are fed, and none is left in the decoder. -/
theorem readEvents_finished {typed : List Char} (composing : editor.Composing)
    (decoder : Text.Utf8State) (written : String) (bytes : Bytes) (rest : List TerminalEvent)
    (starts : typed <+: (Text.utf8Feed decoder bytes).1.map Text.shown)
    (finished : FinishedBy history editor typed) :
    ∃ used left, bytes = used ++ left ∧ (Text.utf8Feed decoder used).1.map Text.shown = typed ∧
      (Text.utf8Feed decoder used).2 = .start ∧
      editor.readEvents history decoder written (bytes.map .byte ++ rest) =
        ((editor.feedAll history typed).1, left.map .byte ++ rest,
          written ++ (editor.feedAll history typed).2) := by
  induction bytes generalizing editor decoder written typed with
  | nil =>
    obtain ⟨part, c, rfl, -⟩ := finished.last composing
    simp [Text.utf8Feed] at starts
  | cons b bytes ih =>
    cases stepped : Text.utf8Step decoder b with
    | mk decoded next =>
      simp only [Text.utf8Feed, stepped, List.map_append] at starts
      by_cases here : typed <+: decoded.map Text.shown
      · -- this byte finishes the line, and then the last of its characters does
        obtain ⟨part, c, whole, proper⟩ := finished.last composing
        have given := Text.utf8Step_given decoder b
        rw [stepped] at given
        rw [whole] at here
        obtain ⟨all, boundary⟩ := Text.given_last given proper here
        rw [← whole] at all
        refine ⟨[b], bytes, rfl, ?_, ?_, ?_⟩
        · simp [Text.utf8Feed, stepped, all]
        · simp [Text.utf8Feed, stepped, boundary]
        · rw [List.map_cons, List.cons_append, readEvents]
          simp [onEvent, stepped, ← all, finished.feedUntilDone, finished.done]
      · obtain ⟨more, rfl⟩ : decoded.map Text.shown <+: typed :=
          (List.prefix_or_prefix_of_prefix starts (List.prefix_append _ _)).resolve_left here
        have later : more ≠ [] := by
          rintro rfl
          exact here (by simp)
        have unfinished := finished.unfinished later
        obtain ⟨used, left, rfl, keys, boundary, read⟩ := ih (composing.feedAll unfinished) next
          (written ++ (editor.feedAll history (decoded.map Text.shown)).2)
          ((List.prefix_append_right_inj _).mp starts) finished.rest
        refine ⟨b :: used, left, rfl, ?_, ?_, ?_⟩
        · simp [Text.utf8Feed, stepped, keys]
        · simp [Text.utf8Feed, stepped, boundary]
        · rw [List.map_cons, List.cons_append, readEvents]
          simp only [onEvent, stepped, feedUntilDone_eq_feedAll history unfinished,
            unfinished _ (List.prefix_refl _), Bool.false_eq_true, if_false, read, feedAll_append,
            String.append_assoc]

section NoData

variable (history)

/-- Outside an escape sequence a read without data ends the line or the input. -/
theorem feed_noDataKey_editing (editing : editor.state = .editing) :
    (editor.feed history editor.noDataKey).1.state.isDone = true := by
  by_cases empty : editor.buffer.length = 0
  · simp [noDataKey, empty, feed, feedKey, editing, interruptKey, endKey, isEnter, EditState.isDone]
  · simp [noDataKey, empty, feed, feedKey, editing, interruptKey, isEnter, EditState.isDone]

/-- A key that neither goes on with an escape sequence nor has a meaning there ends it. -/
theorem feedEscape_dropped {c : Char} (introduces : c ≠ '[' ∧ c ≠ 'O')
    (continues : Text.isDigit c = false ∧ c ≠ ';')
    (acts : c ∉ ['A', 'B', 'C', 'D', 'H', 'F']) :
    (editor.feedEscape history c).1.state = .editing ∧
      (editor.feedEscape history c).1.buffer = editor.buffer := by
  simp only [List.mem_cons, List.not_mem_nil, or_false, not_or] at acts
  cases escape : editor.escape with
  | nil => simp [feedEscape, escape, introduces]
  | cons introducer parameters =>
    by_cases bare : parameters = []
    · simp [feedEscape, escape, continues, bare, acts]
    · simp [feedEscape, escape, continues, bare]

/-- An escape sequence swallows the key of a read without data and is over. -/
theorem feed_noDataKey_escape (inside : editor.state = .awaitingEscape) :
    (editor.feed history editor.noDataKey).1.state = .editing ∧
      (editor.feed history editor.noDataKey).1.noDataKey = editor.noDataKey := by
  have escaped : editor.feed history editor.noDataKey =
      editor.feedEscape history editor.noDataKey := by
    have other : (editor.noDataKey == interruptKey) = false := by
      rw [noDataKey]
      split <;> decide
    simp [feed, inside, other]
  have dropped : (editor.feedEscape history editor.noDataKey).1.state = .editing ∧
      (editor.feedEscape history editor.noDataKey).1.buffer = editor.buffer := by
    rw [noDataKey]
    split
    · exact feedEscape_dropped history (by decide) (by decide) (by decide)
    · exact feedEscape_dropped history (by decide) (by decide) (by decide)
  rw [escaped]
  exact ⟨dropped.1, by rw [noDataKey, dropped.2, noDataKey]⟩

theorem readEvents_nil_editing (editing : editor.state = .editing) (decoder : Text.Utf8State)
    (written : String) :
    editor.readEvents history decoder written [] =
      ((editor.feed history editor.noDataKey).1, [],
        written ++ (editor.feed history editor.noDataKey).2) := by
  rw [readEvents]
  simp [feed_noDataKey_editing history editing]

theorem readEvents_nil_escape (inside : editor.state = .awaitingEscape) (decoder : Text.Utf8State)
    (written : String) :
    let left := editor.feed history editor.noDataKey
    editor.readEvents history decoder written [] =
      ((left.1.feed history editor.noDataKey).1, [],
        written ++ left.2 ++ (left.1.feed history editor.noDataKey).2) := by
  obtain ⟨left, same⟩ := feed_noDataKey_escape history inside
  have unfinished := Composing.not_isDone (.inl left)
  rw [readEvents]
  simp [unfinished, same]

/-- Past the last event the line is finished as by one or two keys more. -/
theorem readEvents_nil (composing : editor.Composing) (decoder : Text.Utf8State)
    (written : String) :
    ∃ ending, (ending = [editor.noDataKey] ∨ ending = [editor.noDataKey, editor.noDataKey]) ∧
      FinishedBy history editor ending ∧
      editor.readEvents history decoder written [] =
        ((editor.feedAll history ending).1, [], written ++ (editor.feedAll history ending).2) := by
  rcases composing with editing | inside
  · have done := feed_noDataKey_editing history editing
    refine ⟨_, .inl rfl, .cons (.inl editing) (.nil done), ?_⟩
    rw [readEvents_nil_editing history editing, feedAll_cons]
    simp [feedAll]
  · obtain ⟨left, same⟩ := feed_noDataKey_escape history inside
    have done := feed_noDataKey_editing history left
    rw [same] at done
    refine ⟨_, .inr rfl, .cons (.inr inside) (.cons (.inl left) (.nil done)), ?_⟩
    rw [readEvents_nil_escape history inside, feedAll_cons, feedAll_cons]
    simp [feedAll, String.append_assoc]

end NoData

/-- Keys that are fed until the line is finished finish it or leave it composed. -/
theorem Composing.feedUntilDone (composing : editor.Composing) (keys : List Char) :
    (editor.feedUntilDone history keys).1.state.isDone = true ∨
      (editor.feedUntilDone history keys).1.Composing := by
  induction keys generalizing editor with
  | nil => exact .inr composing
  | cons c rest ih =>
    rw [Editor.feedUntilDone]
    rcases feed_finishes_or_composing composing history c with ⟨-, done⟩ | still
    · simp [done]
    · simpa [still.not_isDone] using ih still

theorem Composing.onEvent (composing : editor.Composing) (decoder : Text.Utf8State)
    (event : TerminalEvent) :
    (editor.onEvent history decoder event).1.state.isDone = true ∨
      (editor.onEvent history decoder event).1.Composing := by
  have fed (c : Char) : (editor.feed history c).1.state.isDone = true ∨
      (editor.feed history c).1.Composing :=
    (feed_finishes_or_composing composing history c).imp_left And.right
  cases event with
  | interrupt => exact fed interruptKey
  | noData => exact fed editor.noDataKey
  | byte b => exact composing.feedUntilDone _

end Editor

structure LineRead where
  editor : Editor
  decoder : Text.Utf8State
  written : String

/-- The reads of a terminal: the events, and then no data forever. -/
def endless (events : List TerminalEvent) (number : Nat) : TerminalEvent :=
  (events[number]?).getD .noData

namespace LineRead

def read (history : List String) (line : LineRead) (event : TerminalEvent) : LineRead :=
  let (editor, decoder, text) := line.editor.onEvent history line.decoder event
  ⟨editor, decoder, line.written ++ text⟩

def after (history : List String) (reads : Nat → TerminalEvent) (line : LineRead) : Nat → LineRead
  | 0 => line
  | count + 1 => (line.after history reads count).read history (reads count)

/-- The line is finished by that many reads, and by no fewer. -/
structure DoneAfter (history : List String) (reads : Nat → TerminalEvent) (line : LineRead)
    (count : Nat) : Prop where
  done : (line.after history reads count).editor.state.isDone = true
  first : ∀ earlier < count, (line.after history reads earlier).editor.state.isDone = false

variable {history : List String} {line : LineRead}

theorem after_succ (reads : Nat → TerminalEvent) (line : LineRead) (count : Nat) :
    line.after history reads (count + 1) =
      (line.read history (reads 0)).after history (fun number => reads (number + 1)) count := by
  induction count with
  | zero => rfl
  | succ count ih => rw [after, ih, after]

theorem endless_cons (event : TerminalEvent) (rest : List TerminalEvent) :
    (fun number => endless (event :: rest) (number + 1)) = endless rest := by
  funext number
  simp [endless]

theorem endless_nil : (fun number => endless [] (number + 1)) = endless [] := rfl

theorem DoneAfter.one (composing : line.editor.Composing) {reads : Nat → TerminalEvent}
    {event : TerminalEvent} (here : reads 0 = event)
    (done : (line.read history event).editor.state.isDone = true) :
    DoneAfter history reads line 1 := by
  subst here
  refine ⟨done, ?_⟩
  intro earlier before
  obtain rfl : earlier = 0 := by omega
  exact composing.not_isDone

theorem DoneAfter.next (composing : line.editor.Composing) {reads later : Nat → TerminalEvent}
    {event : TerminalEvent} {count : Nat} (here : reads 0 = event)
    (there : (fun number => reads (number + 1)) = later)
    (done : DoneAfter history later (line.read history event) count) :
    DoneAfter history reads line (count + 1) := by
  subst here there
  refine ⟨by rw [after_succ]; exact done.done, ?_⟩
  intro earlier before
  cases earlier with
  | zero => exact composing.not_isDone
  | succ earlier =>
    rw [after_succ]
    exact done.first earlier (by omega)

theorem read_noData (line : LineRead) :
    line.read history .noData =
      ⟨(line.editor.feed history line.editor.noDataKey).1, line.decoder,
        line.written ++ (line.editor.feed history line.editor.noDataKey).2⟩ := rfl

theorem read_noData_editing (history : List String) (editing : line.editor.state = .editing) :
    (line.read history .noData).editor.state.isDone = true := by
  rw [read_noData]
  exact Editor.feed_noDataKey_editing history editing

theorem read_noData_escape (history : List String) (inside : line.editor.state = .awaitingEscape) :
    (line.read history .noData).editor.state = .editing := by
  rw [read_noData]
  exact (Editor.feed_noDataKey_escape history inside).1

theorem readEvents_read_done {event : TerminalEvent} (rest : List TerminalEvent)
    (done : (line.read history event).editor.state.isDone = true) :
    line.editor.readEvents history line.decoder line.written (event :: rest) =
      ((line.read history event).editor, rest, (line.read history event).written) := by
  rw [Editor.readEvents]
  exact if_pos done

theorem readEvents_read {event : TerminalEvent} (rest : List TerminalEvent)
    (unfinished : (line.read history event).editor.state.isDone = false) :
    line.editor.readEvents history line.decoder line.written (event :: rest) =
      (line.read history event).editor.readEvents history (line.read history event).decoder
        (line.read history event).written rest := by
  rw [Editor.readEvents]
  exact if_neg (Bool.eq_false_iff.mp unfinished)

/-- Past the last event a line ends by the second read without data. -/
theorem readEvents_noData (composing : line.editor.Composing) :
    ∃ count, count ≤ 2 ∧ DoneAfter history (endless []) line count ∧
      line.editor.readEvents history line.decoder line.written [] =
        ((line.after history (endless []) count).editor, [],
          (line.after history (endless []) count).written) := by
  have none (number : Nat) : endless [] number = .noData := rfl
  rcases composing with editing | inside
  · refine ⟨1, by decide, .one (.inl editing) (none 0) (read_noData_editing history editing), ?_⟩
    rw [after, after, none, read_noData, Editor.readEvents_nil_editing history editing]
  · have left := read_noData_escape history inside
    refine ⟨2, by decide, .next (.inr inside) (none 0) endless_nil
      (.one (.inl left) (none 0) (read_noData_editing history left)), ?_⟩
    have same := (Editor.feed_noDataKey_escape history inside).2
    rw [after, after, after, none, none, read_noData, read_noData,
      Editor.readEvents_nil_escape history inside]
    simp only [same]

/-- The reading of a line is the loop that reads until the line is finished. -/
theorem readEvents_after (composing : line.editor.Composing) (events : List TerminalEvent) :
    ∃ count, count ≤ events.length + 2 ∧ DoneAfter history (endless events) line count ∧
      line.editor.readEvents history line.decoder line.written events =
        ((line.after history (endless events) count).editor, events.drop count,
          (line.after history (endless events) count).written) := by
  induction events generalizing line with
  | nil =>
    obtain ⟨count, few, done, same⟩ := readEvents_noData composing
    exact ⟨count, by simpa using few, done, by rw [same, List.drop_nil]⟩
  | cons event rest ih =>
    have here : endless (event :: rest) 0 = event := rfl
    rcases composing.onEvent line.decoder event with done | still
    · refine ⟨1, by simp, .one composing here done, ?_⟩
      rw [readEvents_read_done rest done]
      rfl
    · have next : (line.read history event).editor.Composing := still
      obtain ⟨count, few, done, same⟩ := ih next
      refine ⟨count + 1, by simp; omega, .next composing here (endless_cons event rest) done, ?_⟩
      rw [readEvents_read rest next.not_isDone, same, after_succ, endless_cons]
      rfl

end LineRead

namespace Editor

def outcome (editor : Editor) : ReadResult :=
  match editor.result with
  | some line => .line line
  | none => .endOfInput

theorem readTerminal_eq {editor last : Editor} {history : List String} {prompt written : String}
    {events left : List TerminalEvent}
    (read : (editor.start history.length prompt).1.readEvents history .start prompt events =
      (last, left, written)) :
    editor.readTerminal history prompt events = (last.outcome, last, left, written) := by
  have begun : (editor.start history.length prompt).2 = prompt := rfl
  simp only [readTerminal, begun, read]
  rfl

/-- Reading a line from a terminal is a loop over its events that ends by the second read without
data past the last of them. Bytes act by the characters that they decode to, fed one at a time:
where these finish the line, it is finished by the last character of a byte, no character of the
bytes read is lost, and the bytes after it are left for the next call; where they do not, what is
missing to a last character adds nothing and the missing data ends the line. -/
theorem readTerminal_feeds_decoded_keys (editor : Editor) (history : List String) (prompt : String)
    (events : List TerminalEvent) :
    let begun : LineRead := ⟨(editor.start history.length prompt).1, .start, prompt⟩
    let read := editor.readTerminal history prompt events
    (∃ count, count ≤ events.length + 2 ∧ begun.DoneAfter history (endless events) count ∧
      let last := begun.after history (endless events) count
      read = (last.editor.outcome, last.editor, events.drop count, last.written)) ∧
    ∀ (bytes : Bytes) (rest : List TerminalEvent), events = bytes.map .byte ++ rest →
      Text.decodeReplacing bytes = Text.arrived bytes ++
        (Text.utf8Finish (Text.utf8Feed .start bytes).2).map Text.shown ∧
      (∀ typed, typed <+: Text.arrived bytes → FinishedBy history begun.editor typed →
        ∃ used left, bytes = used ++ left ∧ Text.decodeReplacing used = typed ∧
          let fed := begun.editor.feedAll history typed
          read = (fed.1.outcome, fed.1, left.map .byte ++ rest, prompt ++ fed.2)) ∧
      ((∀ typed, typed <+: Text.arrived bytes →
          (begun.editor.feedAll history typed).1.state.isDone = false) → rest = [] →
        let ended := (begun.editor.feedAll history (Text.arrived bytes)).1.noDataKey
        ∃ ending, (ending = [ended] ∨ ending = [ended, ended]) ∧
          FinishedBy history begun.editor (Text.arrived bytes ++ ending) ∧
          let fed := begun.editor.feedAll history (Text.arrived bytes ++ ending)
          read = (fed.1.outcome, fed.1, [], prompt ++ fed.2)) := by
  intro begun read
  have composing : begun.editor.Composing := .inl rfl
  constructor
  · obtain ⟨count, few, done, same⟩ := LineRead.readEvents_after composing events
    exact ⟨count, few, done, readTerminal_eq same⟩
  · rintro bytes rest rfl
    refine ⟨Text.decodeReplacing_eq_arrived bytes, ?_, ?_⟩
    · intro typed starts finished
      obtain ⟨used, left, whole, keys, boundary, same⟩ :=
        readEvents_finished composing .start prompt bytes rest starts finished
      refine ⟨used, left, whole, ?_, readTerminal_eq same⟩
      rw [Text.decodeReplacing_eq_arrived, boundary, Text.arrived, keys]
      simp [Text.utf8Finish]
    · rintro unfinished rfl
      obtain ⟨ending, kinds, finished, same⟩ := readEvents_nil history
        (composing.feedAll unfinished) (Text.utf8Feed .start bytes).2
        (prompt ++ (begun.editor.feedAll history (Text.arrived bytes)).2)
      refine ⟨ending, kinds, .append unfinished finished, readTerminal_eq ?_⟩
      rw [readEvents_bytes history .start prompt bytes [] rfl rfl unfinished, feedAll_append,
        ← String.append_assoc]
      exact same

def brokenBytes : Bytes :=
  [0x61, 0xc3, 0x0a, 0x78]

def brokenKeys : List Char :=
  ['a', Text.replacement, '\n']

/-- The newline comes with the mark of the broken character, and both are fed. -/
theorem readTerminal_feeds_decoded_keys_broken :
    let begun := ((new 0 none).start ([] : List String).length "$ ").1
    let read := (new 0 none).readTerminal [] "$ " (brokenBytes.map .byte ++ [])
    brokenKeys <+: Text.arrived brokenBytes ∧ FinishedBy [] begun brokenKeys ∧
    (∃ used left, brokenBytes = used ++ left ∧ Text.decodeReplacing used = brokenKeys ∧
      read.1 = (begun.feedAll [] brokenKeys).1.outcome ∧ read.2.2.1 = left.map .byte ++ []) ∧
    read.1 = .line "a\ufffd" ∧ read.2.2.1 = [.byte 0x78] := by
  intro begun read
  have starts : brokenKeys <+: Text.arrived brokenBytes := by decide +kernel
  have finished : FinishedBy [] begun brokenKeys := by
    have each : (begun.feedAll [] brokenKeys).1.state.isDone = true ∧ ∀ count, count < 3 →
        (begun.feedAll [] (brokenKeys.take count)).1.state.isDone = false := by decide +kernel
    refine ⟨each.1, fun part shorter other => ?_⟩
    rw [List.prefix_iff_eq_take.mp shorter]
    apply each.2
    exact Nat.lt_of_le_of_ne shorter.length_le (mt shorter.eq_of_length other)
  obtain ⟨-, decoded⟩ :=
    readTerminal_feeds_decoded_keys (new 0 none) [] "$ " (brokenBytes.map .byte ++ [])
  obtain ⟨-, fed, -⟩ := decoded brokenBytes [] rfl
  obtain ⟨used, left, whole, keys, same⟩ := fed brokenKeys starts finished
  have shown : read.1 = .line "a\ufffd" ∧ read.2.2.1 = [.byte 0x78] := by decide +kernel
  have all : read = ((begun.feedAll [] brokenKeys).1.outcome, (begun.feedAll [] brokenKeys).1,
      left.map .byte ++ [], "$ " ++ (begun.feedAll [] brokenKeys).2) := same
  refine ⟨starts, finished, ⟨used, left, whole, keys, ?_, ?_⟩, shown⟩
  · rw [all]
  · rw [all]

end Editor

end CommandShell
