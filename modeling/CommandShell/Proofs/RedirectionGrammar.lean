import Mathlib.Data.List.Basic
import Mathlib.Data.List.Induction
import CommandShell.Proofs.Escape

/-! The grammar of redirections. A segment is read from left to right as plain words and pairs of
an operator and its target, in one way only; a line is refused just when that reading says so. -/
namespace CommandShell

def operatorTable : List (String × OutputStream × Bool) :=
  [(">", .out, false), ("1>", .out, false), (">>", .out, true), ("1>>", .out, true),
    ("2>", .err, false), ("2>>", .err, true)]

def Word.IsBareOperator (word : Word) : Prop :=
  word.quoted = false ∧ word.text ∈ operatorTable.map Prod.fst

instance (word : Word) : Decidable word.IsBareOperator :=
  inferInstanceAs (Decidable (_ ∧ _))

structure BareOperator where
  text : String
  stream : OutputStream
  append : Bool
  listed : (text, stream, append) ∈ operatorTable

def BareOperator.word (operator : BareOperator) : Word :=
  ⟨operator.text, false⟩

/-- A step of the reading. Any word can be a target, also an operator. -/
inductive SegmentItem where
  | plain (word : Word) (argument : ¬ word.IsBareOperator)
  | pair (operator : BareOperator) (target : Word)

namespace SegmentItem

def words : SegmentItem → List Word
  | .plain word _ => [word]
  | .pair operator target => [operator.word, target]

def argument? : SegmentItem → Option String
  | .plain word _ => some word.text
  | .pair _ _ => none

def redirection? : SegmentItem → Option Redirection
  | .plain _ _ => none
  | .pair operator target => some ⟨target.text, operator.stream, operator.append⟩

end SegmentItem

/-- Of each stream that is mentioned the last mention, ordered by the first one. -/
def lastMentions (mentions : List Redirection) : List Redirection :=
  (mentions.map Redirection.stream).eraseDups.filterMap fun stream =>
    (mentions.filter fun mention => mention.stream = stream).getLast?

/-- How a segment is read: its items, and an operator that is left over at its end. -/
structure Reading where
  items : List SegmentItem
  dangling : Option BareOperator := none

namespace Reading

def words (reading : Reading) : List Word :=
  reading.items.flatMap SegmentItem.words ++ (reading.dangling.map BareOperator.word).toList

def arguments (reading : Reading) : List String :=
  reading.items.filterMap SegmentItem.argument?

def mentions (reading : Reading) : List Redirection :=
  reading.items.filterMap SegmentItem.redirection?

def redirections (reading : Reading) : List Redirection :=
  lastMentions reading.mentions

end Reading

theorem operator?_eq_lookup (text : String) : operator? text = operatorTable.lookup text := by
  unfold operator?
  split
  · rfl
  · rfl
  · rfl
  · rfl
  · rfl
  · rfl
  case h_7 greater one twice oneTwice two twoTwice =>
    have apart {other : String} (different : text = other → False) : (text == other) = false :=
      beq_eq_false_iff_ne.mpr different
    simp [operatorTable, List.lookup_cons, apart greater, apart one, apart twice, apart oneTwice,
      apart two, apart twoTwice]

theorem operator?_listed {text : String} {stream : OutputStream} {append : Bool}
    (listed : (text, stream, append) ∈ operatorTable) :
    operator? text = some (stream, append) := by
  simp only [operatorTable, List.mem_cons, Prod.mk.injEq, List.not_mem_nil, or_false] at listed
  rcases listed with ⟨rfl, rfl, rfl⟩ | ⟨rfl, rfl, rfl⟩ | ⟨rfl, rfl, rfl⟩ | ⟨rfl, rfl, rfl⟩ |
    ⟨rfl, rfl, rfl⟩ | ⟨rfl, rfl, rfl⟩ <;> rfl

theorem BareOperator.operator?_word (operator : BareOperator) :
    operator.word.operator? = some (operator.stream, operator.append) :=
  operator?_listed operator.listed

/-- The text of an operator says what it does. -/
theorem BareOperator.eq_of_word {first second : BareOperator} (same : first.word = second.word) :
    first = second := by
  have acts := first.operator?_word
  rw [same, second.operator?_word] at acts
  have text : first.text = second.text := congrArg Word.text same
  cases first
  cases second
  simp_all

namespace Word

theorem isBareOperator_iff {word : Word} : word.IsBareOperator ↔ word.operator?.isSome = true := by
  rw [IsBareOperator, Word.operator?, operator?_eq_lookup]
  cases word.quoted with
  | true => simp
  | false =>
    simp only [true_and, Bool.false_eq_true, if_false, List.lookup_isSome_iff, List.mem_map]
    exact exists_congr fun entry => and_congr_right fun _ => by rw [beq_iff_eq, eq_comm]

theorem operator?_plain {word : Word} (plain : ¬ word.IsBareOperator) : word.operator? = none := by
  rwa [isBareOperator_iff, Option.not_isSome_iff_eq_none] at plain

end Word

theorem BareOperator.isBareOperator (operator : BareOperator) : operator.word.IsBareOperator := by
  rw [Word.isBareOperator_iff, operator.operator?_word]
  rfl

def BareOperator.ofWord (word : Word) (bare : word.IsBareOperator) : BareOperator :=
  let meaning := word.operator?.get (Word.isBareOperator_iff.mp bare)
  { text := word.text
    stream := meaning.1
    append := meaning.2
    listed := by
      obtain ⟨unquoted, -⟩ := bare
      have found : operatorTable.lookup word.text = some meaning := by
        simp [meaning, ← operator?_eq_lookup, Word.operator?, unquoted]
      obtain ⟨before, later, table, -⟩ := List.lookup_eq_some_iff.mp found
      rw [table]
      simp }

theorem BareOperator.word_ofWord {word : Word} (bare : word.IsBareOperator) :
    (ofWord word bare).word = word := by
  have unquoted := bare.1
  cases word
  subst unquoted
  rfl

theorem BareOperator.ofWord_word (operator : BareOperator) (bare : operator.word.IsBareOperator) :
    ofWord operator.word bare = operator := by
  apply eq_of_word
  rfl

theorem hasRedirection_iff {words : List Word} :
    hasRedirection words = true ↔ ∃ word ∈ words, word.IsBareOperator := by
  simp only [hasRedirection, List.any_eq_true, Word.isBareOperator_iff]

theorem find_putRedirection (new : Redirection) (targets : List Redirection)
    (stream : OutputStream) :
    (putRedirection new targets).find? (fun target => target.stream = stream) =
      if new.stream = stream then some new
      else targets.find? fun target => target.stream = stream := by
  induction targets with
  | nil => by_cases same : new.stream = stream <;> simp [putRedirection, same]
  | cons old rest ih =>
    rw [putRedirection]
    by_cases replaced : old.stream = new.stream
    · rw [if_pos replaced, List.find?_cons, List.find?_cons, replaced]
      by_cases same : new.stream = stream <;> simp [same]
    · rw [if_neg replaced, List.find?_cons, List.find?_cons, ih]
      by_cases here : old.stream = stream
      · have other : new.stream ≠ stream := fun same => replaced (here.trans same.symm)
        simp [here, other]
      · simp [here]

/-- Targets without a repeated stream are known by their streams and the target of each. -/
theorem eq_filterMap_find {targets : List Redirection}
    (distinct : (targets.map Redirection.stream).Nodup) :
    targets = (targets.map Redirection.stream).filterMap fun stream =>
      targets.find? fun target => target.stream = stream := by
  induction targets with
  | nil => rfl
  | cons first rest ih =>
    rw [List.map_cons, List.nodup_cons] at distinct
    have later : (rest.map Redirection.stream).filterMap (fun stream =>
        (first :: rest).find? fun target => target.stream = stream) =
        (rest.map Redirection.stream).filterMap fun stream =>
          rest.find? fun target => target.stream = stream := by
      refine List.filterMap_congr fun stream member => ?_
      have other : first.stream ≠ stream := fun same => distinct.1 (same ▸ member)
      simp [other]
    rw [List.map_cons, List.filterMap_cons, later, ← ih distinct.2]
    simp

def collected (mentions : List Redirection) : List Redirection :=
  mentions.foldl (fun targets new => putRedirection new targets) []

theorem collected_concat (mentions : List Redirection) (new : Redirection) :
    collected (mentions ++ [new]) = putRedirection new (collected mentions) := by
  simp [collected]

theorem collected_streams (mentions : List Redirection) :
    (collected mentions).map Redirection.stream =
        (mentions.map Redirection.stream).eraseDups ∧
      ((collected mentions).map Redirection.stream).Nodup := by
  induction mentions using List.reverseRecOn with
  | nil => exact ⟨rfl, List.nodup_nil⟩
  | append_singleton mentions new ih =>
    rw [collected_concat]
    refine ⟨?_, nodup_putRedirection new _ ih.2⟩
    rw [putRedirection_streams, ih.1, List.map_append, List.eraseDups_append]
    generalize mentions.map Redirection.stream = streams
    by_cases known : new.stream ∈ streams
    · simp [List.mem_eraseDups, List.removeAll, known]
    · simp [List.mem_eraseDups, List.removeAll, known, List.eraseDups_cons]

theorem collected_find (mentions : List Redirection) (stream : OutputStream) :
    (collected mentions).find? (fun target => target.stream = stream) =
      (mentions.filter fun mention => mention.stream = stream).getLast? := by
  induction mentions using List.reverseRecOn with
  | nil => rfl
  | append_singleton mentions new ih =>
    rw [collected_concat, find_putRedirection, ih, List.filter_append, List.getLast?_append]
    by_cases same : new.stream = stream <;> simp [same]

/-- Putting each mention in the place of an earlier one leaves the last mentions. -/
theorem collected_eq (mentions : List Redirection) :
    collected mentions = lastMentions mentions := by
  obtain ⟨streams, distinct⟩ := collected_streams mentions
  have known := eq_filterMap_find distinct
  rw [streams] at known
  rw [known, lastMentions]
  exact List.filterMap_congr fun stream _ => collected_find mentions stream

theorem takeRedirections_dangling {word : Word} {meaning : OutputStream × Bool}
    (operator : word.operator? = some meaning) (arguments : List String)
    (targets : List Redirection) :
    takeRedirections arguments targets [word] = .error .missingTarget := by
  unfold takeRedirections
  simp [operator]

namespace Reading

def result (reading : Reading) : Except LineError (List String × List Redirection) :=
  match reading.dangling with
  | some _ => .error .missingTarget
  | none => .ok (reading.arguments, reading.redirections)

theorem take_words (items : List SegmentItem) (dangling : Option BareOperator)
    (arguments : List String) (targets : List Redirection) :
    takeRedirections arguments targets (words ⟨items, dangling⟩) =
      match dangling with
      | some _ => .error .missingTarget
      | none => .ok (arguments.reverse ++ items.filterMap SegmentItem.argument?,
          (items.filterMap SegmentItem.redirection?).foldl
            (fun targets new => putRedirection new targets) targets) := by
  induction items generalizing arguments targets with
  | nil =>
    cases dangling with
    | none => simp [words, takeRedirections]
    | some operator => exact takeRedirections_dangling operator.operator?_word arguments targets
  | cons item items ih =>
    cases item with
    | plain word argument =>
      have step := takeRedirections_plain (Word.operator?_plain argument) arguments targets
        (words ⟨items, dangling⟩)
      rw [ih] at step
      simpa [words, SegmentItem.words, List.filterMap_cons, SegmentItem.argument?,
        SegmentItem.redirection?] using step
    | pair operator target =>
      have step := takeRedirections_target operator.operator?_word arguments targets target
        (words ⟨items, dangling⟩)
      rw [ih] at step
      simpa [words, SegmentItem.words, List.filterMap_cons, SegmentItem.argument?,
        SegmentItem.redirection?] using step

/-- A segment comes to what its reading says. -/
theorem parseRedirections_words (reading : Reading) :
    parseRedirections reading.words = reading.result := by
  obtain ⟨items, dangling⟩ := reading
  rw [parseRedirections, take_words, result]
  cases dangling with
  | some operator => rfl
  | none =>
    rw [redirections, ← collected_eq]
    rfl

def after (item : SegmentItem) (reading : Reading) : Reading :=
  { reading with items := item :: reading.items }

def read : List Word → Reading
  | [] => ⟨[], none⟩
  | word :: rest =>
    if bare : word.IsBareOperator then
      match rest with
      | [] => ⟨[], some (.ofWord word bare)⟩
      | target :: rest => after (.pair (.ofWord word bare) target) (read rest)
    else after (.plain word bare) (read rest)

theorem words_after (item : SegmentItem) (reading : Reading) :
    (after item reading).words = item.words ++ reading.words := by
  simp [after, words]

/-- Every segment can be read. -/
theorem words_read (words : List Word) : (read words).words = words := by
  fun_induction read words with
  | case1 => rfl
  | case2 word bare => exact congrArg ([·]) (BareOperator.word_ofWord bare)
  | case3 word bare target rest ih =>
    rw [words_after, ih, SegmentItem.words, BareOperator.word_ofWord bare]
    rfl
  | case4 word rest plain ih =>
    rw [words_after, ih]
    rfl

/-- There is no second way to read it. -/
theorem read_words (reading : Reading) : read reading.words = reading := by
  obtain ⟨items, dangling⟩ := reading
  induction items with
  | nil =>
    cases dangling with
    | none => rfl
    | some operator =>
      change read [operator.word] = _
      rw [read, dif_pos operator.isBareOperator, BareOperator.ofWord_word]
  | cons item items ih =>
    cases item with
    | plain word argument =>
      change read (word :: words ⟨items, dangling⟩) = _
      rw [read, dif_neg argument, ih]
      rfl
    | pair operator target =>
      change read (operator.word :: target :: words ⟨items, dangling⟩) = _
      rw [read, dif_pos operator.isBareOperator, BareOperator.ofWord_word]
      simp only [ih]
      rfl

end Reading

/-- A segment without a bare operator is all arguments, and no other segment is. -/
theorem hasRedirection_eq_false_iff (words : List Word) :
    hasRedirection words = false ↔ parseRedirections words = .ok (words.map Word.text, []) := by
  have bare : hasRedirection words = false ↔ ∀ word ∈ words, word.operator? = none := by
    simp [hasRedirection]
  rw [bare, parseRedirections]
  constructor
  · intro plain
    have taken := takeRedirections_arguments plain [] [] []
    rw [List.append_nil] at taken
    simpa [takeRedirections] using taken
  · intro taken
    exact (takeRedirections_bare taken).2.2

namespace CommandLine

/-- The segments of a line that is refused: a pipeline with an operator in it, or a single command
whose reading ends in an operator or has no argument. -/
def Refused (segments : List (List Word)) : Prop :=
  (2 ≤ segments.length ∧ ∃ words ∈ segments, ∃ word ∈ words, word.IsBareOperator) ∨
    ∃ reading : Reading, segments = [reading.words] ∧
      (reading.dangling.isSome = true ∨ reading.arguments = [])

/-- What the segments of any other line mean. -/
inductive Means : List (List Word) → CommandLine → Prop
  | blank : Means [] ⟨[], []⟩
  | command (reading : Reading) (complete : reading.dangling = none)
      (named : reading.arguments ≠ []) :
      Means [reading.words] ⟨[reading.arguments], reading.redirections⟩
  | pipeline (segments : List (List Word)) (several : 2 ≤ segments.length)
      (bare : ∀ words ∈ segments, ∀ word ∈ words, ¬ word.IsBareOperator) :
      Means segments ⟨segments.map fun words => words.map Word.text, []⟩

theorem parse_single {text : String} {reading : Reading}
    (scanned : scan true text = [reading.words]) :
    parse text =
      match reading.result with
      | .error e => .error e
      | .ok ([], _) => .error .missingCommand
      | .ok (arguments, redirections) => .ok ⟨[arguments], redirections⟩ := by
  have taken := reading.parseRedirections_words
  cases result : reading.result with
  | error e => simp [parse, scanned, taken, result]
  | ok parts =>
    obtain ⟨arguments, redirections⟩ := parts
    cases arguments <;> simp [parse, scanned, taken, result]

theorem parse_several {text : String} {first second : List Word} {rest : List (List Word)}
    (scanned : scan true text = first :: second :: rest) :
    parse text =
      if (first :: second :: rest).any hasRedirection then .error .redirectionInPipeline
      else .ok ⟨(first :: second :: rest).map fun words => words.map Word.text, []⟩ := by
  rw [parse, scanned]

/-- Every line is refused or has its meaning. -/
theorem parse_cases (text : String) :
    ((∃ e, parse text = .error e) ∧ Refused (scan true text)) ∨
      ∃ line, parse text = .ok line ∧ Means (scan true text) line := by
  cases scanned : scan true text with
  | nil => exact .inr ⟨⟨[], []⟩, by rw [parse, scanned], .blank⟩
  | cons first rest =>
    cases rest with
    | nil =>
      obtain ⟨reading, rfl⟩ : ∃ reading : Reading, reading.words = first :=
        ⟨_, Reading.words_read first⟩
      have parsed := parse_single scanned
      rw [Reading.result] at parsed
      cases complete : reading.dangling with
      | some operator =>
        simp only [complete] at parsed
        exact .inl ⟨⟨_, parsed⟩, .inr ⟨reading, rfl, .inl (by simp [complete])⟩⟩
      | none =>
        simp only [complete] at parsed
        cases named : reading.arguments with
        | nil =>
          simp only [named] at parsed
          exact .inl ⟨⟨_, parsed⟩, .inr ⟨reading, rfl, .inr named⟩⟩
        | cons name arguments =>
          simp only [named] at parsed
          refine .inr ⟨_, parsed, ?_⟩
          rw [← named]
          exact .command reading complete (by simp [named])
    | cons second rest =>
      have parsed := parse_several scanned
      by_cases operators : (first :: second :: rest).any hasRedirection = true
      · rw [if_pos operators] at parsed
        obtain ⟨words, member, bare⟩ := List.any_eq_true.mp operators
        exact .inl ⟨⟨_, parsed⟩, .inl ⟨by simp, words, member, hasRedirection_iff.mp bare⟩⟩
      · rw [if_neg operators] at parsed
        refine .inr ⟨_, parsed, .pipeline _ (by simp) fun words member word inside bare => ?_⟩
        exact operators (List.any_eq_true.mpr
          ⟨words, member, hasRedirection_iff.mpr ⟨word, inside, bare⟩⟩)

theorem Means.not_refused {segments : List (List Word)} {line : CommandLine}
    (means : Means segments line) : ¬ Refused segments := by
  cases means with
  | blank =>
    rintro (⟨several, -⟩ | ⟨reading, single, -⟩)
    · simp at several
    · cases single
  | command reading complete named =>
    rintro (⟨several, -⟩ | ⟨other, single, refused⟩)
    · simp at several
    · obtain rfl : reading = other := by
        rw [← reading.read_words, List.head_eq_of_cons_eq single, other.read_words]
      rcases refused with dangling | none
      · simp [complete] at dangling
      · exact named none
  | pipeline segments several bare =>
    rintro (⟨-, words, member, word, inside, operator⟩ | ⟨reading, single, -⟩)
    · exact bare words member word inside operator
    · simp [single] at several

theorem parse_error_iff (text : String) :
    (∃ e, parse text = .error e) ↔ Refused (scan true text) := by
  rcases parse_cases text with ⟨failed, refused⟩ | ⟨line, parsed, means⟩
  · exact iff_of_true failed refused
  · refine iff_of_false ?_ means.not_refused
    rintro ⟨e, failed⟩
    cases parsed.symm.trans failed

theorem means_of_parse {text : String} {line : CommandLine} (parsed : parse text = .ok line) :
    Means (scan true text) line := by
  rcases parse_cases text with ⟨⟨e, failed⟩, -⟩ | ⟨other, here, means⟩
  · cases parsed.symm.trans failed
  · cases parsed.symm.trans here
    exact means

end CommandLine

theorem runLine_inRange (toolbox : Toolbox) (text : String) (state : ShellState) :
    (runLine toolbox text state).1 ≠ .error .outOfRange := by
  intro failed
  cases escapes : escape? toolbox text state with
  | none =>
    have contained := runLine_contained escapes
    rw [failed] at contained
    exact contained
  | some fault =>
    have escaped := runLine_escape escapes
    rw [failed] at escaped
    cases escaped
    rcases escape?_unpassable escapes with shown | shown <;> cases shown

/-- The words of a segment are read in exactly one way, as plain words and pairs of an operator and
a target. The segment is refused when an operator is left over, and otherwise means its plain words
and the last pair of each stream; without any operator it means all its words. A line is refused
just when its segments are, its meaning is theirs, each of its commands has a name, and so none is
run without one. -/
theorem redirections_follow_grammar :
    (∀ words : List Word,
      (∃! reading : Reading, reading.words = words) ∧
      (∀ reading : Reading, reading.words = words →
        ((∃ e, parseRedirections words = .error e) ↔ reading.dangling.isSome = true) ∧
        (reading.dangling = none →
          parseRedirections words = .ok (reading.arguments, lastMentions reading.mentions))) ∧
      (hasRedirection words = false ↔
        parseRedirections words = .ok (words.map Word.text, []))) ∧
    ∀ text : String,
      ((∃ e, CommandLine.parse text = .error e) ↔ CommandLine.Refused (scan true text)) ∧
      (∀ line, CommandLine.parse text = .ok line →
        CommandLine.Means (scan true text) line ∧ ∀ words ∈ line.segments, words ≠ []) ∧
      ∀ (toolbox : Toolbox) (state : ShellState),
        (runLine toolbox text state).1 ≠ .error .outOfRange := by
  refine ⟨fun words => ⟨?_, ?_, hasRedirection_eq_false_iff words⟩, fun text =>
    ⟨CommandLine.parse_error_iff text, fun line parsed =>
      ⟨CommandLine.means_of_parse parsed, named_of_parse parsed⟩,
      fun toolbox state => runLine_inRange toolbox text state⟩⟩
  · refine ⟨Reading.read words, Reading.words_read words, fun other same => ?_⟩
    rw [← same, other.read_words]
  · rintro reading rfl
    rw [reading.parseRedirections_words, Reading.result]
    cases reading.dangling with
    | none => simp [Reading.redirections]
    | some operator => simp

/-- `echo 1> > hi 2>> e '>' > y`: an operator is the first target of the output, another one is
quoted, and the last target replaces the first where that stands. -/
def nestedReading : Reading where
  items :=
    [.plain ⟨"echo", false⟩ (by decide), .pair ⟨"1>", .out, false, by decide⟩ ⟨">", false⟩,
      .plain ⟨"hi", false⟩ (by decide), .pair ⟨"2>>", .err, true, by decide⟩ ⟨"e", false⟩,
      .plain ⟨">", true⟩ (by decide), .pair ⟨">", .out, false, by decide⟩ ⟨"y", false⟩]

theorem redirections_follow_grammar_nested :
    scan true "echo 1> > hi 2>> e '>' > y" = [nestedReading.words] ∧
      nestedReading.dangling = none ∧
      parseRedirections nestedReading.words =
        .ok (["echo", "hi", ">"], [⟨"y", .out, false⟩, ⟨"e", .err, true⟩]) ∧
      CommandLine.parse "echo 1> > hi 2>> e '>' > y" =
        .ok ⟨[["echo", "hi", ">"]], [⟨"y", .out, false⟩, ⟨"e", .err, true⟩]⟩ ∧
      CommandLine.Means (scan true "echo 1> > hi 2>> e '>' > y")
        ⟨[["echo", "hi", ">"]], [⟨"y", .out, false⟩, ⟨"e", .err, true⟩]⟩ := by
  obtain ⟨segments, lines⟩ := redirections_follow_grammar
  have parsed : CommandLine.parse "echo 1> > hi 2>> e '>' > y" =
      .ok ⟨[["echo", "hi", ">"]], [⟨"y", .out, false⟩, ⟨"e", .err, true⟩]⟩ := rfl
  exact ⟨by decide, rfl, ((segments nestedReading.words).2.1 nestedReading rfl).2 rfl, parsed,
    ((lines _).2.1 _ parsed).1⟩

end CommandShell
