/-! Cutting a text at every occurrence of a character. -/
namespace CommandShell.Text

def cut (separator : Char) : List Char → List (List Char)
  | [] => [[]]
  | c :: rest =>
    match cut separator rest with
    | [] => [[c]]
    | piece :: pieces =>
      if c = separator then [] :: piece :: pieces else (c :: piece) :: pieces

def cutText (separator : Char) (text : String) : List String :=
  (cut separator text.toList).map String.ofList

end CommandShell.Text
