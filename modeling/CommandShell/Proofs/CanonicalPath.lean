import CommandShell.Proofs.ProgramStart

/-! Paths in canonical form. Resolving a path gives its names below the root and nothing else, so it
gives a canonical path back as it is, whatever directory the session is in. -/
namespace CommandShell

namespace Text

theorem free_of_mem_cut {separator : Char} {text piece : List Char}
    (member : piece ∈ cut separator text) : separator ∉ piece := by
  induction text generalizing piece with
  | nil =>
    obtain rfl := List.mem_singleton.mp member
    exact List.not_mem_nil
  | cons c rest ih =>
    obtain ⟨first, others, pieces⟩ := exists_cut separator rest
    have free := ih (pieces ▸ List.mem_cons_self)
    simp only [cut, pieces] at member
    by_cases separates : c = separator
    · rw [if_pos separates, ← pieces] at member
      rcases List.mem_cons.mp member with rfl | later
      · exact List.not_mem_nil
      · exact ih later
    · rw [if_neg separates] at member
      rcases List.mem_cons.mp member with rfl | later
      · exact List.not_mem_cons_of_ne_of_not_mem (Ne.symm separates) free
      · exact ih (pieces ▸ List.mem_cons_of_mem _ later)

end Text

namespace Path

theorem pieces_separated (first rest : String) :
    pieces (first ++ "/" ++ rest) = pieces first ++ pieces rest := by
  have slash : "/".toList = ['/'] := by decide
  simp only [pieces, Text.cutText, String.toList_append, slash, List.append_assoc,
    List.cons_append, List.nil_append, Text.cut_separated, List.map_append]

theorem pieces_name {name : String} (free : '/' ∉ name.toList) : pieces name = [name] := by
  rw [pieces, Text.cutText, Text.cut_whole free]
  simp

theorem free_of_mem_pieces {path piece : String} (member : piece ∈ pieces path) :
    '/' ∉ piece.toList := by
  obtain ⟨letters, inside, rfl⟩ := List.mem_map.mp member
  rw [String.toList_ofList]
  exact Text.free_of_mem_cut inside

theorem pieces_slash (path : String) : pieces ("/" ++ path) = "" :: pieces path :=
  pieces_separated "" path

theorem pieces_intercalate {names : List String} (given : names ≠ [])
    (free : ∀ name ∈ names, '/' ∉ name.toList) : pieces ("/".intercalate names) = names := by
  induction names with
  | nil => contradiction
  | cons name rest ih =>
    have first := pieces_name (free name List.mem_cons_self)
    cases rest with
    | nil => rwa [String.intercalate_singleton]
    | cons next rest =>
      rw [String.intercalate_cons_cons, pieces_separated, first,
        ih (by simp) fun other inside => free other (List.mem_cons_of_mem _ inside)]
      rfl

theorem intercalate_ends {names : List String} (given : names ≠ []) :
    (∃ first ∈ names, ∃ after, "/".intercalate names = first ++ after) ∧
      ∃ last ∈ names, ∃ before, "/".intercalate names = before ++ last := by
  induction names with
  | nil => contradiction
  | cons name rest ih =>
    cases rest with
    | nil =>
      rw [String.intercalate_singleton]
      exact ⟨⟨name, List.mem_cons_self, "", by simp⟩, name, List.mem_cons_self, "", by simp⟩
    | cons next rest =>
      obtain ⟨-, last, member, before, ends⟩ := ih (by simp)
      rw [String.intercalate_cons_cons]
      constructor
      · exact ⟨name, List.mem_cons_self, "/" ++ "/".intercalate (next :: rest),
          String.append_assoc⟩
      · refine ⟨last, List.mem_cons_of_mem _ member, name ++ "/" ++ before, ?_⟩
        rw [ends, String.append_assoc, String.append_assoc, String.append_assoc]

def enter (names : List String) (piece : String) : List String :=
  if piece = "" ∨ piece = "." then names
  else if piece = ".." then names.dropLast
  else names ++ [piece]

def namesBelow (path : String) : List String :=
  (pieces path).foldl enter []

def isDoubled (path : String) : Bool :=
  path.toList.take 2 == ['/', '/'] && path.toList[2]? != some '/'

structure Proper (name : String) : Prop where
  given : name ≠ ""
  other : name ≠ "."
  down : name ≠ ".."
  single : '/' ∉ name.toList

theorem enter_proper {names : List String} {piece : String} (proper : ∀ name ∈ names, Proper name)
    (single : '/' ∉ piece.toList) : ∀ name ∈ enter names piece, Proper name := by
  rw [enter]
  split
  · exact proper
  next moves =>
    rw [not_or] at moves
    split
    · exact fun name inside => proper name (List.dropLast_subset _ inside)
    next down =>
      intro name inside
      rcases List.mem_append.mp inside with old | new
      · exact proper name old
      · obtain rfl := List.mem_singleton.mp new
        exact ⟨moves.1, moves.2, down, single⟩

theorem enter_name {name : String} (proper : Proper name) (names : List String) :
    enter names name = names ++ [name] := by
  simp [enter, proper.given, proper.other, proper.down]

theorem enter_all {names more : List String} (proper : ∀ name ∈ more, Proper name) :
    more.foldl enter names = names ++ more := by
  induction more generalizing names with
  | nil => simp
  | cons name more ih =>
    rw [List.foldl_cons, enter_name (proper name List.mem_cons_self),
      ih fun other inside => proper other (List.mem_cons_of_mem _ inside)]
    simp

/-- The stack of names, newest first, goes with the names below the root. -/
theorem pushPiece_rooted {stack : List String} (piece : String) (down : ".." ∉ stack) :
    pushPiece true stack piece = (enter stack.reverse piece).reverse := by
  unfold pushPiece enter
  by_cases stays : piece = "" ∨ piece = "."
  · rw [if_pos (by simpa using stays), if_pos stays, List.reverse_reverse]
  · rw [if_neg (by simpa using stays), if_neg stays]
    by_cases up : piece = ".."
    · rw [if_pos up, if_pos up]
      cases stack with
      | nil => rfl
      | cons top below =>
        have named : top ≠ ".." := fun same => down (same ▸ List.mem_cons_self)
        simp [named]
    · rw [if_neg up, if_neg up]
      simp

theorem pushPieces_rooted (stack : List String) {pieces : List String}
    (single : ∀ piece ∈ pieces, '/' ∉ piece.toList) (proper : ∀ name ∈ stack, Proper name) :
    (pieces.foldl (pushPiece true) stack).reverse = pieces.foldl enter stack.reverse ∧
      ∀ name ∈ pieces.foldl enter stack.reverse, Proper name := by
  induction pieces generalizing stack with
  | nil => exact ⟨rfl, fun name inside => proper name (List.mem_reverse.mp inside)⟩
  | cons piece rest ih =>
    have down : ".." ∉ stack := fun inside => (proper ".." inside).down rfl
    have next := enter_proper (fun name inside => proper name (List.mem_reverse.mp inside))
      (single piece List.mem_cons_self)
    rw [List.foldl_cons, List.foldl_cons, pushPiece_rooted piece down]
    have later := ih (enter stack.reverse piece).reverse
      (fun other inside => single other (List.mem_cons_of_mem _ inside))
      (fun name inside => next name (List.mem_reverse.mp inside))
    rwa [List.reverse_reverse] at later

end Path

/-- A path in canonical form: one slash or two, then names with a slash between each two. -/
@[ext]
structure CanonicalPath where
  doubled : Bool
  names : List String
  proper : ∀ name ∈ names, Path.Proper name

namespace CanonicalPath

open CommandShell.Path

def root (path : CanonicalPath) : String :=
  if path.doubled then "//" else "/"

def text (path : CanonicalPath) : String :=
  path.root ++ "/".intercalate path.names

def ofPath (path : String) : CanonicalPath where
  doubled := isDoubled path
  names := namesBelow path
  proper := (pushPieces_rooted [] (fun _ => free_of_mem_pieces) (by simp)).2

theorem text_doubled {path : CanonicalPath} (doubled : path.doubled = true) :
    path.text = "/" ++ ("/" ++ "/".intercalate path.names) := by
  rw [text, root, if_pos doubled, ← String.append_assoc]
  rfl

theorem text_single {path : CanonicalPath} (single : path.doubled = false) :
    path.text = "/" ++ "/".intercalate path.names := by
  rw [text, root, if_neg (by simp [single])]

theorem pieces_names (path : CanonicalPath) :
    pieces ("/".intercalate path.names) = if path.names = [] then [""] else path.names := by
  split
  next none =>
    rw [none]
    rfl
  next given => exact pieces_intercalate given fun name inside => (path.proper name inside).single

theorem namesBelow_text (path : CanonicalPath) : namesBelow path.text = path.names := by
  have below : (pieces ("/".intercalate path.names)).foldl enter [] = path.names := by
    rw [path.pieces_names]
    split
    next none => rw [none]; rfl
    · rw [enter_all path.proper, List.nil_append]
  cases shape : path.doubled with
  | true =>
    rw [namesBelow, text_doubled shape, pieces_slash, pieces_slash]
    exact below
  | false =>
    rw [namesBelow, text_single shape, pieces_slash]
    exact below

theorem components_text (path : CanonicalPath) : components path.text = path.names := by
  have named : (pieces ("/".intercalate path.names)).filter (· ≠ "") = path.names := by
    rw [path.pieces_names]
    split
    next none => rw [none]; rfl
    · exact List.filter_eq_self.mpr fun name inside => by
        simpa using (path.proper name inside).given
  cases shape : path.doubled with
  | true =>
    rw [components, text_doubled shape, pieces_slash, pieces_slash]
    exact named
  | false =>
    rw [components, text_single shape, pieces_slash]
    exact named

/-- The names add nothing to the slashes before them. -/
theorem names_head (path : CanonicalPath) :
    ("/".intercalate path.names).toList.head? ≠ some '/' := by
  by_cases given : path.names = []
  · simp [given]
  · obtain ⟨⟨first, member, after, starts⟩, -⟩ := intercalate_ends given
    have proper := path.proper first member
    have letters : first.toList ≠ [] := by simpa using proper.given
    intro slash
    rw [starts, String.toList_append, List.head?_append, List.head?_eq_some_head letters] at slash
    exact proper.single (Option.some.inj slash ▸ List.head_mem letters)

theorem text_last {path : CanonicalPath} (given : path.names ≠ []) :
    path.text.toList.getLast? ≠ some '/' := by
  obtain ⟨-, last, member, before, ends⟩ := intercalate_ends given
  have proper := path.proper last member
  have letters : last.toList ≠ [] := by simpa using proper.given
  intro slash
  rw [text, ends, ← String.append_assoc, String.toList_append, List.getLast?_append,
    List.getLast?_eq_some_getLast letters] at slash
  exact proper.single (Option.some.inj slash ▸ List.getLast_mem letters)

/-- Only the root has a slash at its end. -/
theorem text_last_iff (path : CanonicalPath) :
    path.text.toList.getLast? = some '/' ↔ path.text = "/" ∨ path.text = "//" := by
  constructor
  · intro slash
    have none : path.names = [] := by
      by_cases given : path.names = []
      · exact given
      · exact absurd slash (text_last given)
    rw [text, root, none, String.intercalate_nil, String.append_empty]
    split
    · exact .inr rfl
    · exact .inl rfl
  · rintro (single | doubled)
    · rw [single]
      decide
    · rw [doubled]
      decide

theorem isAbsolute_text (path : CanonicalPath) : isAbsolute path.text = true := by
  cases shape : path.doubled with
  | true => simp [isAbsolute, text_doubled shape]
  | false => simp [isAbsolute, text_single shape]

theorem isDoubled_text (path : CanonicalPath) : isDoubled path.text = path.doubled := by
  have slash : "/".toList = ['/'] := by decide
  have letter := path.names_head
  generalize body : "/".intercalate path.names = names at letter
  cases shape : path.doubled with
  | true =>
    rw [isDoubled, text_doubled shape, body]
    simpa [slash, ← List.head?_eq_getElem?] using letter
  | false =>
    rw [isDoubled, text_single shape, body]
    cases letters : names.toList with
    | nil => simp [letters]
    | cons c rest =>
      have other : c ≠ '/' := by simpa [letters] using letter
      simp [slash, letters, other]

theorem ofPath_text (path : CanonicalPath) : ofPath path.text = path :=
  CanonicalPath.ext path.isDoubled_text path.namesBelow_text

theorem names_ofPath (path : String) : (ofPath path).names = namesBelow path :=
  rfl

/-- The canonical form written out. -/
theorem text_ofPath (path : String) :
    (ofPath path).text =
      (if isDoubled path then "//" else "/") ++ "/".intercalate (namesBelow path) := by
  have doubled : (ofPath path).doubled = isDoubled path := rfl
  rw [text, root, names_ofPath, doubled]

end CanonicalPath

namespace Path

theorem leadingSlashes_rooted {path : String} (absolute : isAbsolute path = true) :
    leadingSlashes path = if isDoubled path then 2 else 1 := by
  obtain ⟨rest, text⟩ := List.head?_eq_some_iff.mp (beq_iff_eq.mp absolute)
  rw [leadingSlashes, isDoubled, text]
  cases rest with
  | nil => rfl
  | cons c rest =>
    by_cases second : c = '/'
    · subst second
      cases rest with
      | nil => rfl
      | cons d rest => by_cases third : d = '/' <;> simp [third]
    · simp [second]

/-- Of an absolute path the canonical form is left. -/
theorem normalize_rooted {path : String} (absolute : isAbsolute path = true) :
    normalize path = (CanonicalPath.ofPath path).text := by
  have free : ∀ piece ∈ pieces path, '/' ∉ piece.toList := fun _ => free_of_mem_pieces
  have names := (pushPieces_rooted [] free (by simp)).1
  have leading := leadingSlashes_rooted absolute
  have rooted : 0 < leadingSlashes path := by
    rw [leading]
    split <;> decide
  have text : slashes (leadingSlashes path) ++ "/".intercalate (namesBelow path) =
      (CanonicalPath.ofPath path).text := by
    have root : slashes (if isDoubled path then 2 else 1) =
        if isDoubled path then "//" else "/" := by
      split <;> rfl
    rw [leading, root, CanonicalPath.text_ofPath]
  have given : (CanonicalPath.ofPath path).text ≠ "" := by
    intro empty
    have root := (CanonicalPath.ofPath path).isAbsolute_text
    rw [empty] at root
    cases root
  rw [normalize, decide_eq_true rooted, names, ofNames, List.reverse_nil, ← namesBelow, text,
    if_neg given]

theorem normalize_text (path : CanonicalPath) : normalize path.text = path.text := by
  rw [normalize_rooted path.isAbsolute_text, path.ofPath_text]

end Path

/-- A canonical path means the same in every session. -/
theorem Session.resolve_text (session : Session) (machine : Machine) (path : CanonicalPath) :
    session.resolve machine path.text = path.text := by
  have absolute := path.isAbsolute_text
  obtain ⟨rest, letters⟩ := List.head?_eq_some_iff.mp (beq_iff_eq.mp absolute)
  have plain : session.expand machine path.text = path.text := by
    simp [expand, letters]
  rw [resolve, plain, Path.join, if_pos absolute, Path.normalize_text]

/-- Resolving a path joins it to the working directory and walks down from the root, piece by
piece, with a step back for each parent. What is left is canonical: absolute, with proper names
only, and with a slash at the end of the root alone. Every session resolves it to itself, wherever
a `cd` may have taken it. -/
theorem resolve_canonical {session : Session} (rooted : Path.isAbsolute session.cwd = true)
    (machine : Machine) (path : String) :
    let joined := Path.join session.cwd (session.expand machine path)
    let names := Path.namesBelow joined
    let resolved := session.resolve machine path
    resolved = (if Path.isDoubled joined then "//" else "/") ++ "/".intercalate names ∧
    Path.isAbsolute resolved = true ∧
    Path.components resolved = names ∧
    (∀ name ∈ names, name ≠ "" ∧ name ≠ "." ∧ name ≠ ".." ∧ '/' ∉ name.toList) ∧
    (resolved.toList.getLast? = some '/' ↔ resolved = "/" ∨ resolved = "//") ∧
    ∀ (other : Session) (elsewhere : Machine), other.resolve elsewhere resolved = resolved := by
  intro joined names resolved
  have absolute : Path.isAbsolute joined = true := Path.isAbsolute_join_left rooted _
  have text : resolved = (CanonicalPath.ofPath joined).text := Path.normalize_rooted absolute
  have written : (CanonicalPath.ofPath joined).text =
      (if Path.isDoubled joined then "//" else "/") ++ "/".intercalate names :=
    CanonicalPath.text_ofPath joined
  have listed : (CanonicalPath.ofPath joined).names = names := CanonicalPath.names_ofPath joined
  generalize CanonicalPath.ofPath joined = form at text written listed
  rw [text, ← written, ← listed]
  refine ⟨rfl, form.isAbsolute_text, form.components_text, ?_, form.text_last_iff,
    fun other elsewhere => other.resolve_text elsewhere form⟩
  intro name member
  have proper := form.proper name member
  exact ⟨proper.given, proper.other, proper.down, proper.single⟩

def wanderer : Session :=
  { cwd := "//srv/data", environment := [("HOME", "up/../home/")] }

theorem resolve_canonical_detour :
    let machine : Machine := { files := ⟨[]⟩, directory := "/" }
    Path.isAbsolute wanderer.cwd = true ∧
      wanderer.resolve machine "~/./x//../../../y/" = "//srv/y" ∧
      ∀ (other : Session) (elsewhere : Machine),
        other.resolve elsewhere "//srv/y" = "//srv/y" := by
  intro machine
  have rooted : Path.isAbsolute wanderer.cwd = true := by decide +kernel
  have found : wanderer.resolve machine "~/./x//../../../y/" = "//srv/y" := by decide +kernel
  obtain ⟨-, -, -, -, -, same⟩ := resolve_canonical rooted machine "~/./x//../../../y/"
  rw [found] at same
  exact ⟨rooted, found, same⟩

end CommandShell
