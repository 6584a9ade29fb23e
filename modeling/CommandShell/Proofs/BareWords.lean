import CommandShell.Proofs.RedirectionGrammar

/-! Where the words of a line stand in it. The separators that are met outside quotes and escapes
cut a line into spans, and a word is what the quoting of one span leaves of it. A word without the
mark `quoted` is its span as it stands, so an operator redirects only where it is written bare. -/
namespace CommandShell

/-- What the text before a character does to it: an open quote, a backslash. -/
structure Quoting where
  quote : Quote := .none
  escaped : Bool := false
  deriving DecidableEq, Repr

namespace Quoting

def next (quoting : Quoting) (c : Char) : Quoting :=
  if quoting.escaped then { quoting with escaped := false }
  else if c = '\\' then { quoting with escaped := true }
  else
    match quoting.quote with
    | .none =>
      if c = '\'' then ⟨.single, false⟩
      else if c = '"' then ⟨.double, false⟩
      else quoting
    | .single => if c = '\'' then {} else quoting
    | .double => if c = '"' then {} else quoting

def after (text : List Char) : Quoting :=
  text.foldl next {}

def letters (quoting : Quoting) (c : Char) : List Char :=
  if quoting.escaped then
    match quoting.quote with
    | .none => [c]
    | .single => ['\\', c]
    | .double => if isDoubleQuoteEscape c then [c] else ['\\', c]
  else if c = '\\' then []
  else
    match quoting.quote with
    | .none => if c = '\'' ∨ c = '"' then [] else [c]
    | .single => if c = '\'' then [] else [c]
    | .double => if c = '"' then [] else [c]

/-- The character is quoted or escaped, or it is a quote itself. -/
def Marks (quoting : Quoting) (c : Char) : Prop :=
  quoting ≠ {} ∨ c = '\'' ∨ c = '"'

instance (quoting : Quoting) (c : Char) : Decidable (quoting.Marks c) :=
  inferInstanceAs (Decidable (_ ∨ _))

/-- What the quoting leaves of a text. A backslash at the end stands for itself. -/
def read (quoting : Quoting) : List Char → List Char
  | [] => if quoting.escaped then ['\\'] else []
  | c :: rest => quoting.letters c ++ read (quoting.next c) rest

def marked (quoting : Quoting) : List Char → Bool
  | [] => false
  | c :: rest => decide (quoting.Marks c) || marked (quoting.next c) rest

theorem after_append (before text : List Char) :
    after (before ++ text) = text.foldl next (after before) := by
  rw [after, List.foldl_append, after]

theorem after_concat (text : List Char) (c : Char) :
    after (text ++ [c]) = (after text).next c := by
  rw [after_append]
  rfl

/-- Text that is read from outside quotes is quoted as on a line of its own. -/
theorem after_append_bare {before : List Char} (bare : after before = {}) (text : List Char) :
    after (before ++ text) = after text := by
  rw [after_append, bare, after]

theorem marked_iff (quoting : Quoting) (text : List Char) :
    quoting.marked text = true ↔
      ∃ front c rest, text = front ++ c :: rest ∧ (front.foldl next quoting).Marks c := by
  induction text generalizing quoting with
  | nil => simp [marked]
  | cons d text ih =>
    rw [marked, Bool.or_eq_true, decide_eq_true_iff, ih]
    constructor
    · rintro (first | ⟨front, c, rest, rfl, later⟩)
      · exact ⟨[], d, text, rfl, first⟩
      · exact ⟨d :: front, c, rest, rfl, later⟩
    · rintro ⟨front, c, rest, split, marks⟩
      cases front with
      | nil =>
        obtain ⟨rfl, rfl⟩ := List.cons.inj split
        exact .inl marks
      | cons e front =>
        obtain ⟨rfl, rfl⟩ := List.cons.inj split
        exact .inr ⟨front, c, rest, rfl, marks⟩

theorem not_marks {quoting : Quoting} {c : Char} (plain : ¬ quoting.Marks c) :
    quoting = {} ∧ c ≠ '\'' ∧ c ≠ '"' := by
  simpa [Marks] using plain

theorem next_plain {c : Char} (plain : ¬ Marks {} c) (letter : c ≠ '\\') : next {} c = {} := by
  obtain ⟨-, single, double⟩ := not_marks plain
  simp [next, letter, single, double]

theorem next_backslash : next {} '\\' = ⟨.none, true⟩ := rfl

/-- No quote is opened without a mark. -/
theorem next_quote {quoting : Quoting} {c : Char} (plain : ¬ quoting.Marks c) :
    (quoting.next c).quote = .none := by
  obtain ⟨rfl, -⟩ := not_marks plain
  by_cases backslash : c = '\\'
  · rw [backslash, next_backslash]
  · rw [next_plain plain backslash]

/-- A text without a mark is left as it is. -/
theorem read_unmarked {text : List Char} (plain : marked {} text = false) :
    read {} text = text := by
  induction text with
  | nil => rfl
  | cons c rest ih =>
    rw [marked, Bool.or_eq_false_iff, decide_eq_false_iff_not] at plain
    obtain ⟨first, later⟩ := plain
    by_cases backslash : c = '\\'
    · subst backslash
      -- the character after a backslash would be marked
      cases rest with
      | nil => rfl
      | cons d rest => simp [marked, Marks, next_backslash] at later
    · obtain ⟨-, single, double⟩ := not_marks first
      rw [next_plain first backslash] at later
      rw [read, next_plain first backslash, ih later]
      simp [letters, backslash, single, double]

end Quoting

def separates (splitPipes : Bool) (c : Char) : Bool :=
  Text.isBlank c || (c == '|' && splitPipes)

/-- The character is a separator that is met after the text `front`. -/
def Cuts (splitPipes : Bool) (front : List Char) (c : Char) : Prop :=
  Quoting.after front = {} ∧ separates splitPipes c = true

instance (splitPipes : Bool) (front : List Char) (c : Char) :
    Decidable (Cuts splitPipes front c) :=
  inferInstanceAs (Decidable (_ ∧ _))

/-- A part of a line, with what stands before and after it. -/
structure Span where
  before : List Char
  text : List Char
  after : List Char
  deriving DecidableEq, Repr

namespace Span

def word? (span : Span) : Option Word :=
  match Quoting.read {} span.text with
  | [] => none
  | letters => some ⟨String.ofList letters, Quoting.marked {} span.text⟩

def Begins (splitPipes : Bool) (before : List Char) : Prop :=
  before = [] ∨ ∃ front c, before = front ++ [c] ∧ Cuts splitPipes front c

def Uncut (splitPipes : Bool) (before text : List Char) : Prop :=
  ∀ front c rest, text = front ++ c :: rest → ¬ Cuts splitPipes (before ++ front) c

/-- The span reaches from one separator or end of the line to the next. -/
structure Fits (splitPipes : Bool) (line : List Char) (span : Span) : Prop where
  whole : line = span.before ++ span.text ++ span.after
  left : Begins splitPipes span.before
  right : span.after = [] ∨
    ∃ c rest, span.after = c :: rest ∧ Cuts splitPipes (span.before ++ span.text) c
  inside : Uncut splitPipes span.before span.text

def Marked (span : Span) : Prop :=
  ∃ front c rest, span.text = front ++ c :: rest ∧
    (Quoting.after (span.before ++ front)).Marks c

end Span

/-- The spans of a text that goes on with `rest`, when `text` has been read since the last
separator. -/
def spansFrom (splitPipes : Bool) (before text : List Char) : List Char → List Span
  | [] => [⟨before, text, []⟩]
  | c :: rest =>
    if Cuts splitPipes text c then
      ⟨before, text, c :: rest⟩ :: spansFrom splitPipes (before ++ text ++ [c]) [] rest
    else spansFrom splitPipes before (text ++ [c]) rest

def wordSpans (splitPipes : Bool) (line : String) : List Span :=
  spansFrom splitPipes [] [] line.toList

theorem separates_ne {splitPipes : Bool} {c : Char} (cuts : separates splitPipes c = true)
    (other : Char) (letter : separates true other = false) : c ≠ other := by
  rintro rfl
  simp only [separates, Bool.and_true, Bool.or_eq_false_iff] at letter
  simp [separates, letter] at cuts

/-- After a separator the text is outside quotes still. -/
theorem Cuts.next {splitPipes : Bool} {front : List Char} {c : Char}
    (cuts : Cuts splitPipes front c) : Quoting.after (front ++ [c]) = {} := by
  have single := separates_ne cuts.2 '\'' (by decide)
  have double := separates_ne cuts.2 '"' (by decide)
  rw [Quoting.after_concat, cuts.1]
  exact Quoting.next_plain (by simp [Quoting.Marks, single, double])
    (separates_ne cuts.2 '\\' (by decide))

namespace Span

theorem Begins.after_eq {splitPipes : Bool} {before : List Char}
    (left : Begins splitPipes before) : Quoting.after before = {} := by
  rcases left with rfl | ⟨front, c, rfl, cuts⟩
  · rfl
  · exact cuts.next

theorem Uncut.concat {splitPipes : Bool} {before text : List Char} {c : Char}
    (inside : Uncut splitPipes before text) (stays : ¬ Cuts splitPipes (before ++ text) c) :
    Uncut splitPipes before (text ++ [c]) := by
  intro front d more split
  -- The new character is the one that is split off, or the split lies before it.
  rcases List.append_eq_append_iff.mp split with ⟨added, rfl, last⟩ | ⟨kept, rfl, tail⟩
  · cases added with
    | nil =>
      obtain ⟨rfl, -⟩ := List.cons.inj last
      rwa [List.append_nil]
    | cons e added => simp at last
  · cases kept with
    | nil =>
      obtain ⟨rfl, -⟩ := List.cons.inj tail
      rwa [List.append_nil] at stays
    | cons e kept =>
      obtain ⟨rfl, -⟩ := List.cons.inj tail
      exact inside front d kept rfl

theorem fits_of_mem {splitPipes : Bool} {before text rest : List Char}
    (left : Begins splitPipes before) (inside : Uncut splitPipes before text) {span : Span}
    (member : span ∈ spansFrom splitPipes before text rest) :
    span.Fits splitPipes (before ++ text ++ rest) := by
  induction rest generalizing before text with
  | nil =>
    rw [spansFrom, List.mem_singleton] at member
    subst member
    exact ⟨rfl, left, .inl rfl, inside⟩
  | cons c rest ih =>
    have met : Cuts splitPipes (before ++ text) c ↔ Cuts splitPipes text c := by
      rw [Cuts, Cuts, Quoting.after_append_bare left.after_eq]
    rw [spansFrom] at member
    split at member
    next cuts =>
      rcases List.mem_cons.mp member with rfl | later
      · exact ⟨rfl, left, .inr ⟨c, rest, rfl, met.mpr cuts⟩, inside⟩
      · have fits := ih (.inr ⟨before ++ text, c, rfl, met.mpr cuts⟩) (by simp [Uncut]) later
        simpa using fits
    next stays =>
      have fits := ih left (inside.concat (mt met.mp stays)) member
      simpa using fits

theorem Fits.marked_iff {splitPipes : Bool} {line : List Char} {span : Span}
    (fits : span.Fits splitPipes line) : Quoting.marked {} span.text = true ↔ span.Marked := by
  rw [Quoting.marked_iff, Marked]
  refine exists_congr fun front => ?_
  rw [Quoting.after_append_bare fits.left.after_eq, Quoting.after]

theorem word?_eq_some {span : Span} {word : Word} (read : span.word? = some word) :
    word.text.toList = Quoting.read {} span.text ∧
      word.quoted = Quoting.marked {} span.text := by
  unfold word? at read
  split at read
  · contradiction
  · cases read
    exact ⟨String.toList_ofList, rfl⟩

/-- What can stand in a span without a mark: nothing that quotes or separates, and a backslash
only where the line ends. -/
theorem Fits.unmarked_letters {splitPipes : Bool} {line : List Char} {span : Span}
    (fits : span.Fits splitPipes line) (plain : ¬ span.Marked) {front rest : List Char} {c : Char}
    (split : span.text = front ++ c :: rest) :
    separates splitPipes c = false ∧ c ≠ '\'' ∧ c ≠ '"' ∧
      (c = '\\' → rest = [] ∧ span.after = []) := by
  obtain ⟨bare, single, double⟩ : Quoting.after (span.before ++ front) = {} ∧ c ≠ '\'' ∧ c ≠ '"' :=
    Quoting.not_marks fun marks => plain ⟨front, c, rest, split, marks⟩
  refine ⟨?_, single, double, ?_⟩
  · have inside := fits.inside front c rest split
    rw [Cuts, not_and, Bool.not_eq_true] at inside
    exact inside bare
  · rintro rfl
    have waits : Quoting.after (span.before ++ (front ++ ['\\'])) = ⟨.none, true⟩ := by
      rw [← List.append_assoc, Quoting.after_concat, bare, Quoting.next_backslash]
    have last : rest = [] := by
      cases rest with
      | nil => rfl
      | cons d rest =>
        refine absurd ⟨front ++ ['\\'], d, rest, by simp [split], ?_⟩ plain
        simp [Quoting.Marks, waits]
    refine ⟨last, ?_⟩
    rcases fits.right with ended | ⟨d, more, -, cuts⟩
    · exact ended
    · have bareEnd := cuts.1
      rw [split, last, waits] at bareEnd
      contradiction

end Span

namespace Scanner

def quoting (s : Scanner) : Quoting :=
  ⟨s.quote, s.escaped⟩

def ended (s : Scanner) : List Word :=
  s.segments.reverse.flatten ++ s.words.reverse

def word? (s : Scanner) : Option Word :=
  match s.letters with
  | [] => none
  | letters => some ⟨String.ofList letters.reverse, s.quoted⟩

/-- A character that separates nothing changes only the word that is read. -/
theorem step_inside {splitPipes : Bool} {s : Scanner} {c : Char}
    (held : s.quote ≠ .none → s.quoted = true)
    (inside : ¬ (s.quoting = {} ∧ separates splitPipes c = true)) :
    step splitPipes s c =
      { s with
        letters := (s.quoting.letters c).reverse ++ s.letters
        quoted := s.quoted || decide (s.quoting.Marks c)
        quote := (s.quoting.next c).quote
        escaped := (s.quoting.next c).escaped } := by
  obtain ⟨segments, words, letters, quoted, quote, escaped⟩ := s
  cases escaped with
  | true =>
    cases quote with
    | none => simp [step, pushEscaped, push, quoting, Quoting.letters, Quoting.next, Quoting.Marks]
    | single =>
      simp [step, pushEscaped, push, quoting, Quoting.letters, Quoting.next, Quoting.Marks]
    | double =>
      cases escape : isDoubleQuoteEscape c <;>
        simp [step, pushEscaped, push, quoting, Quoting.letters, Quoting.next, Quoting.Marks,
          escape]
  | false =>
    by_cases backslash : c = '\\'
    · subst backslash
      cases quote with
      | none => simp [step, quoting, Quoting.letters, Quoting.next, Quoting.Marks]
      -- Inside quotes no step sets the mark: it was set where they were opened.
      | single =>
        obtain rfl : quoted = true := held (by simp)
        simp [step, quoting, Quoting.letters, Quoting.next]
      | double =>
        obtain rfl : quoted = true := held (by simp)
        simp [step, quoting, Quoting.letters, Quoting.next]
    cases quote with
    | none =>
      have letter : separates splitPipes c = false := by simpa [quoting] using inside
      rw [separates, Bool.or_eq_false_iff] at letter
      by_cases single : c = '\''
      · simp [step, quoting, Quoting.letters, Quoting.next, Quoting.Marks, single]
      by_cases double : c = '"'
      · simp [step, quoting, Quoting.letters, Quoting.next, Quoting.Marks, double]
      simp only [step, letter.1, letter.2]
      simp [push, quoting, Quoting.letters, Quoting.next, Quoting.Marks, backslash, single, double]
    | single =>
      obtain rfl : quoted = true := held (by simp)
      by_cases close : c = '\'' <;>
        simp [step, push, quoting, Quoting.letters, Quoting.next, backslash, close]
    | double =>
      obtain rfl : quoted = true := held (by simp)
      by_cases close : c = '"' <;>
        simp [step, push, quoting, Quoting.letters, Quoting.next, backslash, close]

/-- A separator ends the word, and it may end the segment. -/
theorem step_separator {splitPipes : Bool} {s : Scanner} {c : Char} (bare : s.quoting = {})
    (cuts : separates splitPipes c = true) :
    step splitPipes s c = s.endWord ∨ step splitPipes s c = s.endSegment := by
  have ends : EndsAt s s.endWord :=
    ⟨congrArg Quoting.escaped bare, congrArg Quoting.quote bare, rfl⟩
  rw [separates, Bool.or_eq_true, Bool.and_eq_true, beq_iff_eq] at cuts
  rcases cuts with blank | ⟨rfl, rfl⟩
  · exact .inl (step_gap ends blank splitPipes)
  · exact .inr ((step_bar ends).trans (endSegment_endWord s))

theorem endWord_ended (s : Scanner) : s.endWord.ended = s.ended ++ s.word?.toList := by
  cases letters : s.letters <;> simp [endWord, ended, word?, letters]

theorem endSegment_ended (s : Scanner) : s.endSegment.ended = s.ended ++ s.word?.toList := by
  rw [← endWord_ended]
  cases words : s.endWord.words <;> simp [endSegment, ended, words]

theorem finish_flatten (s : Scanner) :
    s.finish.flatten = s.ended ++ (if s.escaped then s.push '\\' else s).word?.toList := by
  generalize kept : (if s.escaped then s.push '\\' else s) = last
  have done : last.endSegment.words = [] := by
    cases words : last.endWord.words <;> simp [endSegment, words]
  have same : last.ended = s.ended := by
    rw [← kept]
    split <;> rfl
  rw [← same, ← endSegment_ended, finish, kept, ended, done]
  simp

/-- The scanner has read `text` since the last separator, and its word and its mark are those of
the text so far, whatever comes next. -/
structure Reads (s : Scanner) (text : List Char) : Prop where
  quoting : s.quoting = Quoting.after text
  letters : ∀ more, Quoting.read {} (text ++ more) =
    s.letters.reverse ++ Quoting.read s.quoting more
  quoted : ∀ more, Quoting.marked {} (text ++ more) = (s.quoted || Quoting.marked s.quoting more)
  held : s.quote ≠ .none → s.quoted = true

theorem reads_nil {s : Scanner} (bare : s.quoting = {}) (letters : s.letters = [])
    (quoted : s.quoted = false) : s.Reads [] := by
  refine ⟨bare, by simp [bare, letters], by simp [bare, quoted], ?_⟩
  intro inside
  exact absurd (congrArg Quoting.quote bare) inside

theorem endWord_reads {s : Scanner} (bare : s.quoting = {}) : s.endWord.Reads [] := by
  apply reads_nil
  · have same : s.endWord.quoting = s.quoting := by
      cases letters : s.letters <;> simp [endWord, quoting, letters]
    exact same.trans bare
  · cases letters : s.letters <;> simp [endWord, letters]
  · cases letters : s.letters <;> simp [endWord, letters]

theorem endSegment_reads {s : Scanner} (bare : s.quoting = {}) : s.endSegment.Reads [] := by
  have reads := endWord_reads bare
  cases words : s.endWord.words with
  | nil => simpa [endSegment, words] using reads
  | cons word rest =>
    rw [endSegment, words]
    exact ⟨reads.quoting, reads.letters, reads.quoted, reads.held⟩

theorem Reads.step_inside {splitPipes : Bool} {s : Scanner} {text : List Char}
    (reads : s.Reads text)
    {c : Char} (inside : ¬ Cuts splitPipes text c) :
    (step splitPipes s c).Reads (text ++ [c]) ∧ (step splitPipes s c).ended = s.ended := by
  rw [Cuts, ← reads.quoting] at inside
  rw [Scanner.step_inside reads.held inside]
  refine ⟨⟨?_, ?_, ?_, ?_⟩, rfl⟩
  · rw [Quoting.after_concat, ← reads.quoting]
    rfl
  · intro more
    rw [List.append_assoc, List.singleton_append, reads.letters, Quoting.read]
    simp [Scanner.quoting]
  · intro more
    rw [List.append_assoc, List.singleton_append, reads.quoted, Quoting.marked, Bool.or_assoc]
    rfl
  · intro opened
    by_cases marks : s.quoting.Marks c
    · simp [marks]
    · exact absurd (Quoting.next_quote marks) opened

theorem Reads.word?_eq {s : Scanner} {text : List Char} (reads : s.Reads text)
    (before after : List Char) :
    Span.word? ⟨before, text, after⟩ = (if s.escaped then s.push '\\' else s).word? := by
  have letters := reads.letters []
  have quoted := reads.quoted []
  rw [List.append_nil] at letters quoted
  rw [Span.word?, letters, quoted]
  cases escaped : s.escaped with
  | true => simp [Quoting.read, Quoting.marked, Scanner.quoting, escaped, Scanner.word?, push]
  | false =>
    cases read : s.letters <;>
      simp [Quoting.read, Quoting.marked, Scanner.quoting, escaped, Scanner.word?, read]

theorem Reads.step_separator {splitPipes : Bool} {s : Scanner} {text : List Char}
    (reads : s.Reads text) {c : Char} (cuts : Cuts splitPipes text c) :
    (step splitPipes s c).Reads [] ∧ (step splitPipes s c).ended = s.ended ++ s.word?.toList := by
  have bare : s.quoting = {} := reads.quoting.trans cuts.1
  rcases Scanner.step_separator bare cuts.2 with ended | ended
  · rw [ended]
    exact ⟨endWord_reads bare, endWord_ended s⟩
  · rw [ended]
    exact ⟨endSegment_reads bare, endSegment_ended s⟩

/-- A run makes the words of the spans that it meets. -/
theorem run_spans {splitPipes : Bool} {s : Scanner} {text : List Char} (reads : s.Reads text)
    (before rest : List Char) :
    (rest.foldl (step splitPipes) s).finish.flatten =
      s.ended ++ (spansFrom splitPipes before text rest).filterMap Span.word? := by
  induction rest generalizing s before text with
  | nil =>
    rw [List.foldl_nil, finish_flatten, ← reads.word?_eq before [], spansFrom,
      List.filterMap_cons]
    cases Span.word? ⟨before, text, []⟩ <;> rfl
  | cons c rest ih =>
    rw [spansFrom, List.foldl_cons]
    split
    next cuts =>
      obtain ⟨again, made⟩ := reads.step_separator cuts
      have word := reads.word?_eq before (c :: rest)
      have bare : s.escaped = false := congrArg Quoting.escaped (reads.quoting.trans cuts.1)
      rw [bare, if_neg Bool.false_ne_true] at word
      rw [ih again, made, List.append_assoc, List.filterMap_cons, word]
      cases s.word? <;> rfl
    next inside =>
      obtain ⟨again, same⟩ := reads.step_inside inside
      rw [ih again, same]

end Scanner

theorem scan_spans (splitPipes : Bool) (line : String) :
    (scan splitPipes line).flatten = (wordSpans splitPipes line).filterMap Span.word? :=
  Scanner.run_spans (Scanner.reads_nil rfl rfl rfl) [] line.toList

theorem wordSpans_fit {splitPipes : Bool} {line : String} {span : Span}
    (member : span ∈ wordSpans splitPipes line) : span.Fits splitPipes line.toList :=
  Span.fits_of_mem (.inl rfl) (by simp [Span.Uncut]) member

/-- No character of an operator quotes. -/
theorem operators_unmarked :
    ∀ entry ∈ operatorTable, Quoting.marked {} entry.1.toList = false := by
  decide

/-- Whether a word is an operator is seen in its span. -/
theorem Span.operator?_word {span : Span} {word : Word} (read : span.word? = some word) :
    word.operator? = operator? (String.ofList span.text) := by
  obtain ⟨text, quoted⟩ := word?_eq_some read
  cases marked : Quoting.marked {} span.text with
  | false =>
    rw [Quoting.read_unmarked marked] at text
    rw [Word.operator?, quoted, marked, ← text, String.ofList_toList]
    rfl
  | true =>
    rw [Word.operator?, quoted, marked, if_pos rfl, operator?_eq_lookup, eq_comm,
      List.lookup_eq_none_iff]
    intro entry listed
    rw [bne_iff_ne]
    intro same
    have plain := operators_unmarked entry listed
    rw [← same, String.toList_ofList, marked] at plain
    contradiction

/-- A line none of whose words is an operator is taken as it is. -/
theorem CommandLine.parse_plain {line : String}
    (plain : ∀ word ∈ (scan true line).flatten, word.operator? = none) :
    CommandLine.parse line = .ok ⟨splitPipeline line, []⟩ := by
  have unredirected : ∀ words ∈ scan true line, hasRedirection words = false := by
    intro words member
    rw [hasRedirection, List.any_eq_false]
    intro word inside
    simp [plain word (List.mem_flatten.mpr ⟨words, member, inside⟩)]
  rw [splitPipeline]
  cases scanned : scan true line with
  | nil => rw [CommandLine.parse, scanned]; rfl
  | cons first rest =>
    rw [scanned] at unredirected
    cases rest with
    | nil =>
      have words : first ≠ [] := (scan_nonempty true line first (by simp [scanned])).1
      have taken := (hasRedirection_eq_false_iff first).mp (unredirected first (by simp))
      cases first with
      | nil => contradiction
      | cons word rest => simp [CommandLine.parse, scanned, taken]
    | cons second rest =>
      rw [parse_several scanned, if_neg]
      simpa using unredirected

/-- The words of a line are what the quoting leaves of its spans, each span reaching from one
separator outside quotes to the next. A word is quoted just when something in its span is; any
other word is its span as it stands. So a line redirects only by an operator written bare. -/
theorem unquoted_words_verbatim (splitPipes : Bool) (line : String) :
    (scan splitPipes line).flatten = (wordSpans splitPipes line).filterMap Span.word? ∧
    (∀ span ∈ wordSpans splitPipes line, span.Fits splitPipes line.toList ∧
      ∀ word, span.word? = some word →
        (word.quoted = true ↔ span.Marked) ∧
        (word.quoted = false → word.text.toList = span.text ∧
          ∀ front c rest, span.text = front ++ c :: rest →
            Text.isBlank c = false ∧ (splitPipes = true → c ≠ '|') ∧ c ≠ '\'' ∧ c ≠ '"' ∧
            (c = '\\' → rest = [] ∧ span.after = [])) ∧
        word.operator? = operator? (String.ofList span.text)) ∧
    ((∀ span ∈ wordSpans true line, operator? (String.ofList span.text) = none) →
      CommandLine.parse line = .ok ⟨splitPipeline line, []⟩) := by
  refine ⟨scan_spans splitPipes line, ?_, ?_⟩
  · intro span member
    have fits := wordSpans_fit member
    refine ⟨fits, fun word read => ?_⟩
    obtain ⟨text, quoted⟩ := Span.word?_eq_some read
    have mark : word.quoted = true ↔ span.Marked := by rw [quoted, fits.marked_iff]
    refine ⟨mark, ?_, Span.operator?_word read⟩
    intro bare
    have plain : ¬ span.Marked := by simp [← mark, bare]
    refine ⟨text.trans (Quoting.read_unmarked (quoted.symm.trans bare)), ?_⟩
    intro front c rest split
    obtain ⟨letter, single, double, backslash⟩ := fits.unmarked_letters plain split
    rw [separates, Bool.or_eq_false_iff] at letter
    refine ⟨letter.1, ?_, single, double, backslash⟩
    rintro rfl rfl
    simp at letter
  · intro bare
    apply CommandLine.parse_plain
    intro word member
    rw [scan_spans] at member
    obtain ⟨span, inside, read⟩ := List.mem_filterMap.mp member
    rw [Span.operator?_word read, bare span inside]

def disguisedLine : String :=
  "x'>' '>'|b\\"

def disguisedEnd : Span :=
  ⟨"x'>' '>'|".toList, "b\\".toList, []⟩

theorem unquoted_words_verbatim_disguised :
    disguisedEnd ∈ wordSpans true disguisedLine ∧
    disguisedEnd.word? = some ⟨"b\\", false⟩ ∧
    disguisedEnd.Fits true disguisedLine.toList ∧ ¬ disguisedEnd.Marked ∧
    CommandLine.parse disguisedLine = .ok ⟨[["x>", ">"], ["b\\"]], []⟩ := by
  have closed : disguisedEnd ∈ wordSpans true disguisedLine ∧
      disguisedEnd.word? = some ⟨"b\\", false⟩ ∧
      (∀ span ∈ wordSpans true disguisedLine, operator? (String.ofList span.text) = none) ∧
      splitPipeline disguisedLine = [["x>", ">"], ["b\\"]] := by
    decide +kernel
  obtain ⟨member, read, bare, split⟩ := closed
  obtain ⟨-, spans, redirects⟩ := unquoted_words_verbatim true disguisedLine
  obtain ⟨fits, words⟩ := spans disguisedEnd member
  obtain ⟨mark, -, -⟩ := words _ read
  refine ⟨member, read, fits, fun marked => ?_, split ▸ redirects bare⟩
  exact Bool.false_ne_true (mark.mpr marked)

end CommandShell
