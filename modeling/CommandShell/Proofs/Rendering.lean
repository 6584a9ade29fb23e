import CommandShell.CommandLine.Parse
import CommandShell.Proofs.Scanner

/-! Writing a command line so that reading it gives the same line back. Every character
of an argument and of a path is escaped, so none of them can act; the operators and
bars stay bare, so that they do. -/
namespace CommandShell

def escapeText (text : String) : String :=
  String.ofList (text.toList.flatMap fun c => ['\\', c])

def operatorText (stream : OutputStream) (append : Bool) : String :=
  match stream, append with
  | .out, false => ">"
  | .out, true => ">>"
  | .err, false => "2>"
  | .err, true => "2>>"

namespace CommandLine

def renderSegment (words : List String) : String :=
  " ".intercalate (words.map escapeText)

/-- The segments between bars, then each redirection as an operator and its path. -/
def render (line : CommandLine) : String :=
  " ".intercalate (" | ".intercalate (line.segments.map renderSegment) ::
    line.redirections.flatMap fun redirection =>
      [operatorText redirection.stream redirection.append, escapeText redirection.path])

/-- The lines that have a meaning: there is a command in every segment, no word is empty,
and only a single command is redirected, each stream at most once. -/
structure WellFormed (line : CommandLine) : Prop where
  nonempty : line.segments ≠ []
  segments : ∀ words ∈ line.segments, words ≠ [] ∧ ∀ word ∈ words, word ≠ ""
  single : line.redirections ≠ [] → line.segments.length = 1
  streams : (line.redirections.map Redirection.stream).Nodup
  paths : ∀ redirection ∈ line.redirections, redirection.path ≠ ""

instance (line : CommandLine) : Decidable line.WellFormed :=
  decidable_of_iff (line.segments ≠ [] ∧
      (∀ words ∈ line.segments, words ≠ [] ∧ ∀ word ∈ words, word ≠ "") ∧
      (line.redirections ≠ [] → line.segments.length = 1) ∧
      (line.redirections.map Redirection.stream).Nodup ∧
      ∀ redirection ∈ line.redirections, redirection.path ≠ "")
    ⟨fun ⟨nonempty, segments, single, streams, paths⟩ =>
      ⟨nonempty, segments, single, streams, paths⟩,
     fun valid => ⟨valid.nonempty, valid.segments, valid.single, valid.streams, valid.paths⟩⟩

end CommandLine

namespace Word

/-- A bare word stands for itself, any other is escaped throughout. -/
def render (word : Word) : String :=
  if word.quoted then escapeText word.text else word.text

def isPlain (c : Char) : Bool :=
  !(c == '\\' || c == '\'' || c == '"' || Text.isBlank c || c == '|')

structure Renderable (word : Word) : Prop where
  nonempty : word.text ≠ ""
  plain : word.quoted = false → ∀ c ∈ word.text.toList, isPlain c = true

end Word

namespace Scanner

theorem run_escaped (splitPipes : Bool) (text : List Char) (s : Scanner)
    (unescaped : s.escaped = false) (bare : s.quote = .none) (nonempty : text ≠ []) :
    (text.flatMap fun c => ['\\', c]).foldl (step splitPipes) s =
      { s with letters := text.reverse ++ s.letters, quoted := true } := by
  have one (s : Scanner) (unescaped : s.escaped = false) (bare : s.quote = .none) (c : Char) :
      step splitPipes (step splitPipes s '\\') c =
        { s with letters := c :: s.letters, quoted := true } := by
    cases s
    simp_all [step, pushEscaped, push]
  induction text generalizing s with
  | nil => contradiction
  | cons c rest ih =>
    simp only [List.flatMap_cons, List.cons_append, List.nil_append, List.foldl_cons]
    rw [one s unescaped bare c]
    cases rest with
    | nil => simp
    | cons d rest =>
      rw [ih _ (by exact unescaped) (by exact bare) (by simp)]
      simp

theorem run_plain {splitPipes : Bool} (text : List Char) (s : Scanner)
    (unescaped : s.escaped = false) (bare : s.quote = .none)
    (plain : ∀ c ∈ text, Word.isPlain c = true) :
    text.foldl (step splitPipes) s = { s with letters := text.reverse ++ s.letters } := by
  induction text generalizing s with
  | nil => simp
  | cons c rest ih =>
    have taken : step splitPipes s c = s.push c := by
      have here := plain c (by simp)
      simp only [Word.isPlain, Bool.not_eq_true', Bool.or_eq_false_iff, beq_eq_false_iff_ne] at here
      obtain ⟨⟨⟨⟨backslash, single⟩, double⟩, blank⟩, bar⟩ := here
      simp [step, unescaped, bare, backslash, single, double, blank, bar]
    rw [List.foldl_cons, taken,
      ih (s.push c) (by exact unescaped) (by exact bare)
        (fun d inside => plain d (by simp [inside]))]
    simp [push]

/-- After the letters of a word the scanner is at its end. -/
theorem letters_endsAt (segments : List (List Word)) (words : List Word) {letters : List Char}
    (nonempty : letters ≠ []) (quoted : Bool) :
    EndsAt { between segments words with letters := letters.reverse, quoted }
      (between segments (⟨String.ofList letters, quoted⟩ :: words)) := by
  refine ⟨rfl, rfl, ?_⟩
  cases reversed : letters.reverse with
  | nil => exact absurd (by simpa using reversed) nonempty
  | cons c rest =>
    have text : String.ofList (c :: rest).reverse = String.ofList letters := by simp [← reversed]
    simp only [endWord, between, text]

/-- Reading a written word leaves the scanner at its end. -/
theorem run_word (splitPipes : Bool) (word : Word) (valid : word.Renderable)
    (segments : List (List Word)) (words : List Word) :
    EndsAt (word.render.toList.foldl (step splitPipes) (between segments words))
      (between segments (word :: words)) := by
  have letters : word.text.toList ≠ [] := by simpa using valid.nonempty
  have read : word.render.toList.foldl (step splitPipes) (between segments words) =
      { between segments words with
        letters := word.text.toList.reverse, quoted := word.quoted } := by
    cases quoted : word.quoted with
    | true =>
      simp only [Word.render, quoted, if_true, escapeText, String.toList_ofList]
      rw [run_escaped splitPipes _ _ rfl rfl letters]
      simp [between]
    | false =>
      simp only [Word.render, quoted, Bool.false_eq_true, if_false]
      rw [run_plain _ _ rfl rfl (valid.plain quoted)]
      simp [between]
  have ends := letters_endsAt segments words letters word.quoted
  rw [String.ofList_toList] at ends
  rw [read]
  exact ends

theorem run_words (splitPipes : Bool) (segments : List (List Word)) (words : List Word)
    (more : List Word) (nonempty : more ≠ []) (valid : ∀ word ∈ more, word.Renderable) :
    EndsAt ((" ".intercalate (more.map Word.render)).toList.foldl (step splitPipes)
      (between segments words)) (between segments (more.reverse ++ words)) := by
  induction more generalizing words with
  | nil => contradiction
  | cons word rest ih =>
    have first := run_word splitPipes word (valid word (by simp)) segments words
    cases rest with
    | nil => simpa using first
    | cons next rest =>
      have later := ih (word :: words) (by simp) (fun w inside => valid w (by simp_all))
      have blank : " ".toList = [' '] := by decide
      simp only [List.map_cons, String.intercalate_cons_cons, String.toList_append, blank,
        List.foldl_append, List.foldl_cons, List.foldl_nil, step_blank first] at later ⊢
      simpa using later

theorem run_segments (segments : List (List Word)) (more : List (List Word))
    (nonempty : more ≠ [])
    (valid : ∀ words ∈ more, words ≠ [] ∧ ∀ word ∈ words, word.Renderable) :
    ((" | ".intercalate
        (more.map fun words => " ".intercalate (words.map Word.render))).toList.foldl
      (step true) (between segments [])).finish = segments.reverse ++ more := by
  induction more generalizing segments with
  | nil => contradiction
  | cons words rest ih =>
    obtain ⟨present, renderable⟩ := valid words (by simp)
    have first := run_words true segments [] words present renderable
    have ended : (between segments (words.reverse ++ [])).endSegment =
        between (words :: segments) [] := by
      rw [endSegment_between _ _ (by simpa using present)]
      simp
    cases rest with
    | nil =>
      rw [List.map_singleton, String.intercalate_singleton, finish_endsAt first, ended]
      simp [between]
    | cons next rest =>
      have separator : " | ".toList = [' ', '|', ' '] := by decide
      have later := ih (words :: segments) (by simp) (fun w inside => valid w (by simp_all))
      simp only [List.map_cons, String.intercalate_cons_cons, String.toList_append, separator,
        List.foldl_append, List.foldl_cons, List.foldl_nil] at later ⊢
      rw [step_blank first, step_bar (between_endsAt _ _), ended, step_blank (between_endsAt _ _),
        later]
      simp

end Scanner

/-- Written words are read back one by one, whatever characters they hold. -/
theorem scan_render (segments : List (List Word)) (nonempty : segments ≠ [])
    (valid : ∀ words ∈ segments, words ≠ [] ∧ ∀ word ∈ words, word.Renderable) :
    scan true (" | ".intercalate
      (segments.map fun words => " ".intercalate (words.map Word.render))) = segments := by
  simpa [scan, Scanner.between] using Scanner.run_segments [] segments nonempty valid

theorem operator_operatorText (stream : OutputStream) (append : Bool) :
    operator? (operatorText stream append) = some (stream, append) := by
  cases stream <;> cases append <;> rfl

theorem operatorText_renderable (stream : OutputStream) (append : Bool) :
    Word.Renderable ⟨operatorText stream append, false⟩ := by
  cases stream <;> cases append <;> exact ⟨by decide, fun _ => List.all_eq_true.mp (by decide)⟩

def Redirection.words (redirection : Redirection) : List Word :=
  [⟨operatorText redirection.stream redirection.append, false⟩, ⟨redirection.path, true⟩]

theorem putRedirection_new (new : Redirection) (targets : List Redirection)
    (apart : new.stream ∉ targets.map Redirection.stream) :
    putRedirection new targets = targets ++ [new] := by
  induction targets with
  | nil => rfl
  | cons old rest ih =>
    simp only [List.map_cons, List.mem_cons, not_or] at apart
    simp [putRedirection, Ne.symm apart.1, ih apart.2]

theorem takeRedirections_plain {word : Word} (plain : word.operator? = none)
    (arguments : List String) (targets : List Redirection) (rest : List Word) :
    takeRedirections arguments targets (word :: rest) =
      takeRedirections (word.text :: arguments) targets rest := by
  conv => lhs; unfold takeRedirections
  simp [plain]

theorem takeRedirections_arguments {words : List Word}
    (plain : ∀ word ∈ words, word.operator? = none) (arguments : List String)
    (targets : List Redirection) (rest : List Word) :
    takeRedirections arguments targets (words ++ rest) =
      takeRedirections ((words.map Word.text).reverse ++ arguments) targets rest := by
  induction words generalizing arguments with
  | nil => rfl
  | cons word words ih =>
    rw [List.cons_append, takeRedirections_plain (plain word (by simp)),
      ih fun word member => plain word (by simp [member])]
    simp

theorem takeRedirections_target {word : Word} {stream : OutputStream} {append : Bool}
    (operator : word.operator? = some (stream, append)) (arguments : List String)
    (targets : List Redirection) (target : Word) (rest : List Word) :
    takeRedirections arguments targets (word :: target :: rest) =
      takeRedirections arguments (putRedirection ⟨target.text, stream, append⟩ targets) rest := by
  conv => lhs; unfold takeRedirections
  simp [operator]

theorem takeRedirections_words (arguments : List String) (targets new : List Redirection)
    (distinct : ((targets ++ new).map Redirection.stream).Nodup) :
    takeRedirections arguments targets (new.flatMap Redirection.words) =
      .ok (arguments.reverse, targets ++ new) := by
  induction new generalizing targets with
  | nil => simp [takeRedirections]
  | cons first rest ih =>
    have apart : first.stream ∉ targets.map Redirection.stream := by
      rw [List.map_append, List.nodup_append] at distinct
      intro member
      exact distinct.2.2 _ member _ (by simp) rfl
    have operator : Word.operator? ⟨operatorText first.stream first.append, false⟩ =
        some (first.stream, first.append) := operator_operatorText _ _
    simp only [List.flatMap_cons, Redirection.words, List.cons_append, List.nil_append]
    rw [takeRedirections_target operator, putRedirection_new first targets apart]
    simpa using ih (targets ++ [first]) (by simpa using distinct)

structure Collected (targets : List Redirection) : Prop where
  streams : (targets.map Redirection.stream).Nodup
  paths : ∀ redirection ∈ targets, redirection.path ≠ ""

theorem putRedirection_streams (new : Redirection) (targets : List Redirection) :
    (putRedirection new targets).map Redirection.stream =
      if new.stream ∈ targets.map Redirection.stream then targets.map Redirection.stream
      else targets.map Redirection.stream ++ [new.stream] := by
  induction targets with
  | nil => simp [putRedirection]
  | cons old rest ih =>
    by_cases same : old.stream = new.stream
    · simp [putRedirection, same]
    · simp only [putRedirection, if_neg same, List.map_cons, ih, List.mem_cons,
        Ne.symm same, false_or]
      split <;> simp

theorem nodup_putRedirection (new : Redirection) (targets : List Redirection)
    (distinct : (targets.map Redirection.stream).Nodup) :
    ((putRedirection new targets).map Redirection.stream).Nodup := by
  rw [putRedirection_streams]
  split
  · exact distinct
  next apart =>
    rw [List.nodup_append]
    refine ⟨distinct, by simp, fun stream present other only => ?_⟩
    rw [List.mem_singleton.mp only]
    rintro rfl
    exact apart present

theorem putRedirection_mem {new redirection : Redirection} {targets : List Redirection}
    (member : redirection ∈ putRedirection new targets) :
    redirection = new ∨ redirection ∈ targets := by
  induction targets with
  | nil => simpa [putRedirection] using member
  | cons old rest ih =>
    simp only [putRedirection] at member
    split at member
    · exact (List.mem_cons.mp member).imp_right (List.mem_cons_of_mem _)
    · rcases List.mem_cons.mp member with rfl | later
      · exact .inr (by simp)
      · exact (ih later).imp_right (List.mem_cons_of_mem _)

theorem putRedirection_collected (new : Redirection) (targets : List Redirection)
    (path : new.path ≠ "") (valid : Collected targets) :
    Collected (putRedirection new targets) := by
  refine ⟨nodup_putRedirection new targets valid.streams, fun redirection member => ?_⟩
  rcases putRedirection_mem member with rfl | old
  · exact path
  · exact valid.paths _ old

theorem takeRedirections_collected (words : List Word) (arguments : List String)
    (targets : List Redirection) (result : List String × List Redirection)
    (letters : ∀ word ∈ words, word.text ≠ "") (plain : ∀ argument ∈ arguments, argument ≠ "")
    (valid : Collected targets)
    (taken : takeRedirections arguments targets words = .ok result) :
    (∀ argument ∈ result.1, argument ≠ "") ∧ Collected result.2 := by
  fun_induction takeRedirections arguments targets words with
  | case1 arguments targets =>
    cases taken
    exact ⟨by simpa using plain, valid⟩
  | case2 arguments targets word rest bare ih =>
    exact ih (fun w inside => letters w (by simp [inside]))
      (by simpa using ⟨letters word (by simp), plain⟩) valid taken
  | case3 => cases taken
  | case4 arguments targets word stream append target rest operator ih =>
    exact ih (fun w inside => letters w (by simp [inside])) plain
      (putRedirection_collected _ _ (letters target (by simp)) valid) taken

/-- The targets are texts of words. -/
theorem takeRedirections_paths {P : String → Prop} {words : List Word} {arguments : List String}
    {targets : List Redirection} {result : List String × List Redirection}
    (texts : ∀ word ∈ words, P word.text) (paths : ∀ redirection ∈ targets, P redirection.path)
    (taken : takeRedirections arguments targets words = .ok result) :
    ∀ redirection ∈ result.2, P redirection.path := by
  fun_induction takeRedirections arguments targets words with
  | case1 arguments targets =>
    cases taken
    exact paths
  | case2 arguments targets word rest bare ih =>
    exact ih (fun w inside => texts w (by simp [inside])) paths taken
  | case3 => cases taken
  | case4 arguments targets word stream append target rest operator ih =>
    refine ih (fun w inside => texts w (by simp [inside])) (fun redirection member => ?_) taken
    rcases putRedirection_mem member with rfl | old
    · exact texts target (by simp)
    · exact paths _ old

theorem takeRedirections_bare {arguments result : List String} {targets : List Redirection}
    {words : List Word} (taken : takeRedirections arguments targets words = .ok (result, [])) :
    targets = [] ∧ result = arguments.reverse ++ words.map Word.text ∧
      ∀ word ∈ words, word.operator? = none := by
  fun_induction takeRedirections arguments targets words with
  | case1 arguments targets =>
    cases taken
    simp
  | case2 arguments targets word rest bare ih =>
    obtain ⟨none, same, later⟩ := ih taken
    exact ⟨none, by simp [same], by simpa using ⟨bare, later⟩⟩
  | case3 => cases taken
  | case4 arguments targets word stream append target rest operator ih =>
    have none := (ih taken).1
    cases targets with
    | nil => cases none
    | cons old targets =>
      rw [putRedirection] at none
      split at none <;> cases none

def argumentWords (arguments : List String) : List Word :=
  arguments.map (⟨·, true⟩)

theorem parseRedirections_words (arguments : List String) (redirections : List Redirection)
    (distinct : (redirections.map Redirection.stream).Nodup) :
    parseRedirections (argumentWords arguments ++ redirections.flatMap Redirection.words) =
      .ok (arguments, redirections) := by
  have plain : ∀ word ∈ argumentWords arguments, word.operator? = none := by
    simp [argumentWords, Word.operator?]
  rw [parseRedirections, takeRedirections_arguments plain,
    takeRedirections_words _ [] redirections (by simpa using distinct)]
  simp [argumentWords, Function.comp_def]

theorem argumentWords_bare (arguments : List String) :
    hasRedirection (argumentWords arguments) = false := by
  simp [hasRedirection, argumentWords, Word.operator?]

theorem argumentWords_text (arguments : List String) :
    (argumentWords arguments).map Word.text = arguments := by
  rw [argumentWords, List.map_map]
  exact List.map_id arguments

theorem argumentWords_renderable {arguments : List String}
    (letters : ∀ argument ∈ arguments, argument ≠ "") :
    ∀ word ∈ argumentWords arguments, word.Renderable := by
  intro word member
  obtain ⟨argument, inside, rfl⟩ := List.mem_map.mp member
  exact ⟨letters argument inside, by simp⟩

theorem renderSegment_words (arguments : List String) :
    CommandLine.renderSegment arguments =
      " ".intercalate ((argumentWords arguments).map Word.render) := by
  rw [CommandLine.renderSegment, argumentWords, List.map_map]
  rfl

namespace CommandLine

/-- A rendered command with redirections is scanned as one segment of all its words. -/
theorem scan_command (arguments : List String) (redirections : List Redirection)
    (valid : WellFormed ⟨[arguments], redirections⟩) :
    scan true (render ⟨[arguments], redirections⟩) =
      [argumentWords arguments ++ redirections.flatMap Redirection.words] := by
  obtain ⟨present, letters⟩ := valid.segments arguments (by simp)
  have targets : ∀ word ∈ redirections.flatMap Redirection.words, word.Renderable := by
    intro word member
    obtain ⟨redirection, inside, here⟩ := List.mem_flatMap.mp member
    simp only [Redirection.words, List.mem_cons, List.not_mem_nil, or_false] at here
    rcases here with rfl | rfl
    · exact operatorText_renderable _ _
    · exact ⟨valid.paths redirection inside, by simp⟩
  have text : render ⟨[arguments], redirections⟩ = " | ".intercalate
      ([argumentWords arguments ++ redirections.flatMap Redirection.words].map fun words =>
        " ".intercalate (words.map Word.render)) := by
    have written : redirections.flatMap (fun redirection =>
        [operatorText redirection.stream redirection.append, escapeText redirection.path]) =
        (redirections.flatMap Redirection.words).map Word.render := by
      rw [List.map_flatMap]
      simp [Redirection.words, Word.render]
    have left : (argumentWords arguments).map Word.render ≠ [] := by
      simpa [argumentWords] using present
    simp only [render, List.map_singleton, String.intercalate_singleton, renderSegment_words,
      written, List.map_append]
    cases (redirections.flatMap Redirection.words).map Word.render with
    | nil => simp
    | cons first rest =>
      rw [String.intercalate_append_of_ne_nil left (by simp), String.intercalate_cons_cons]
  rw [text]
  apply scan_render _ (by simp)
  intro words member
  obtain rfl := List.mem_singleton.mp member
  refine ⟨by simp [argumentWords, present], fun word inside => ?_⟩
  rcases List.mem_append.mp inside with argument | target
  · exact argumentWords_renderable letters word argument
  · exact targets word target

theorem scan_pipeline (segments : List (List String)) (valid : WellFormed ⟨segments, []⟩) :
    scan true (render ⟨segments, []⟩) = segments.map argumentWords := by
  have text : render ⟨segments, []⟩ = " | ".intercalate
      ((segments.map argumentWords).map fun words => " ".intercalate (words.map Word.render)) := by
    simp only [render, List.flatMap_nil, String.intercalate_singleton, List.map_map]
    congr 2
    funext arguments
    exact renderSegment_words arguments
  rw [text]
  apply scan_render _ (by simpa using valid.nonempty)
  intro words member
  obtain ⟨arguments, inside, rfl⟩ := List.mem_map.mp member
  obtain ⟨present, letters⟩ := valid.segments arguments inside
  exact ⟨by simp [argumentWords, present], argumentWords_renderable letters⟩

theorem parse_render (line : CommandLine) (valid : line.WellFormed) :
    parse line.render = .ok line := by
  obtain ⟨segments, redirections⟩ := line
  cases segments with
  | nil => exact absurd rfl valid.nonempty
  | cons first others =>
    cases others with
    | nil =>
      obtain ⟨present, -⟩ := valid.segments first (by simp)
      cases first with
      | nil => exact absurd rfl present
      | cons name arguments =>
        rw [parse, scan_command _ _ valid]
        simp [parseRedirections_words _ _ valid.streams]
    | cons second others =>
      have bare : redirections = [] := by
        cases redirections with
        | nil => rfl
        | cons redirection rest => simpa using valid.single (by simp)
      subst bare
      have texts : (fun words => words.map Word.text) ∘ argumentWords = id :=
        funext argumentWords_text
      rw [parse, scan_pipeline _ valid]
      simp [argumentWords_bare, argumentWords_text, texts]

/-- Whatever is read has a meaning, unless the line is blank. -/
theorem parse_wellFormed (text : String) (line : CommandLine) (parsed : parse text = .ok line)
    (nonblank : line.segments ≠ []) : line.WellFormed := by
  have filled := scan_nonempty true text
  unfold parse at parsed
  split at parsed
  · cases parsed
    exact absurd rfl nonblank
  next words scanned =>
    obtain ⟨-, letters⟩ := filled words (by simp [scanned])
    cases taken : parseRedirections words with
    | error e => simp [taken] at parsed
    | ok result =>
      obtain ⟨arguments, redirections⟩ := result
      obtain ⟨plain, collected⟩ := takeRedirections_collected words [] [] (arguments, redirections)
        letters (by simp) ⟨by simp, by simp⟩ taken
      cases arguments with
      | nil => simp [taken] at parsed
      | cons name arguments =>
        simp only [taken, Except.ok.injEq] at parsed
        subst parsed
        exact ⟨by simp, by simpa using plain, by simp, collected.streams, collected.paths⟩
  next segments =>
    split at parsed
    · cases parsed
    · cases parsed
      refine ⟨nonblank, ?_, by simp, by simp, by simp⟩
      intro arguments member
      obtain ⟨words, inside, rfl⟩ := List.mem_map.mp member
      obtain ⟨present, letters⟩ := filled words inside
      refine ⟨by simpa using present, fun argument read => ?_⟩
      obtain ⟨word, here, rfl⟩ := List.mem_map.mp read
      exact letters word here

/-- Writing and reading are inverse on exactly the lines that have a meaning: each of
them is read back from its rendering, and every line that is read and is not blank is
one of them. -/
theorem parse_render_roundTrip :
    (∀ line : CommandLine, line.WellFormed → parse line.render = .ok line) ∧
      ∀ (text : String) (line : CommandLine), parse text = .ok line → line.segments ≠ [] →
        line.WellFormed ∧ parse line.render = .ok line := by
  refine ⟨parse_render, fun text line parsed nonblank => ?_⟩
  have valid := parse_wellFormed text line parsed nonblank
  exact ⟨valid, parse_render line valid⟩

def disguised : CommandLine :=
  ⟨[["echo", ">", "a b", "|", "it's", "\\\"", "\n"]],
    [⟨"2>", .err, true⟩, ⟨" ", .out, false⟩]⟩

/-- What `echo a\ b 2>> e' '1 > x > y` means; the second target of the output replaces the
first. -/
def replaced : CommandLine :=
  ⟨[["echo", "a b"]], [⟨"e 1", .err, true⟩, ⟨"y", .out, false⟩]⟩

theorem roundTrip_disguised :
    (disguised.WellFormed ∧ parse disguised.render = .ok disguised) ∧
      parse "echo a\\ b 2>> e' '1 > x > y" = .ok replaced ∧ replaced.segments ≠ [] ∧
      replaced.WellFormed ∧ parse replaced.render = .ok replaced := by
  have read : parse "echo a\\ b 2>> e' '1 > x > y" = .ok replaced := rfl
  have present : replaced.segments ≠ [] := by decide
  exact ⟨⟨by decide, parse_render_roundTrip.1 disguised (by decide)⟩, read, present,
    parse_render_roundTrip.2 _ _ read present⟩

end CommandLine

end CommandShell
