import RoffDocBook.Text.Basic

/-! Control lines: comments, the name of a request, and the quoting of its arguments. -/
namespace RoffDocBook.ControlLine
open Text

/-- Whether a line is a comment, with or without a control character before it. -/
def isComment (line : Text) : Bool :=
  let body :=
    match line with
    | '.' :: rest => trimStart rest
    | '\'' :: rest => trimStart rest
    | _ => line
  startsWith body "\\\"" || startsWith body "\\#"

/-- The text of a comment line after its leader. -/
def commentText (line : Text) : Text :=
  match breakOn? "\\\"" line with
  | some found => trim found.2
  | none =>
    match breakOn? "\\#" line with
    | some found => trim found.2
    | none => line

/-- Whether a line begins with one of the two control characters. -/
def isControl (line : Text) (control noBreak : Char) : Bool :=
  match line with
  | [] => false
  | c :: _ => c == control || c == noBreak

/-- The request name and the rest of a control line. A name ends at white space or at an escape, and a control
character alone has none. -/
def split? (line : Text) (control noBreak : Char) : Option (String × Text) :=
  match line with
  | [] => none
  | c :: rest =>
    if c == control || c == noBreak then
      let body := rest.dropWhile isSpaceOrTab
      let found := spanUntil (fun c => isBlank c || c == '\\') body
      if found.1.isEmpty then none
      else
        let rest :=
          match found.2 with
          | ' ' :: r => r
          | '\t' :: r => r
          | r => r
        some (String.ofList found.1, rest)
    else none

/-- A quoted argument after its opening quote, and the text after the closing one. Two quotes stand for one. -/
def quotedArgument : Text → Text × Text
  | [] => ([], [])
  | '"' :: '"' :: cs => ('"' :: (quotedArgument cs).1, (quotedArgument cs).2)
  | c :: cs => if c == '"' then ([], cs) else (c :: (quotedArgument cs).1, (quotedArgument cs).2)

/-- An argument up to the next blank, and the text from there. A blank after a backslash belongs to it. -/
def plainArgument : Text → Text × Text
  | [] => ([], [])
  | '\\' :: c :: cs => ('\\' :: c :: (plainArgument cs).1, (plainArgument cs).2)
  | c :: cs => if isSpaceOrTab c then ([], c :: cs) else (c :: (plainArgument cs).1, (plainArgument cs).2)

theorem length_quotedArgument_le (t : Text) : (quotedArgument t).2.length ≤ t.length := by
  fun_induction quotedArgument t <;> simp_all <;> omega

theorem length_plainArgument_le (t : Text) : (plainArgument t).2.length ≤ t.length := by
  fun_induction plainArgument t <;> simp_all <;> omega

theorem length_plainArgument_lt {c : Char} (cs : Text) (h : isSpaceOrTab c = false) :
    (plainArgument (c :: cs)).2.length < (c :: cs).length := by
  cases cs with
  | nil => by_cases e : c = '\\' <;> simp_all [plainArgument]
  | cons d ds =>
    have := length_plainArgument_le ds
    have := length_plainArgument_le (d :: ds)
    by_cases e : c = '\\'
    · subst e; simp [plainArgument]; omega
    · simp [plainArgument, e, h]; simp at this; omega

/-- The first argument of a text that begins with no blank, and the text after it. -/
def firstArgument : Text → Text × Text
  | '"' :: cs => quotedArgument cs
  | t => plainArgument t

theorem length_firstArgument_lt {c : Char} (cs : Text) (h : isSpaceOrTab c = false) :
    (firstArgument (c :: cs)).2.length < (c :: cs).length := by
  unfold firstArgument
  split
  · rename_i ds e
    have := length_quotedArgument_le ds
    simp_all <;> omega
  · exact length_plainArgument_lt cs h

/-- The arguments of a request. Blanks separate them, and a double quote opens one that may hold blanks. -/
def arguments (t : Text) : List Text :=
  match _h : t.dropWhile isSpaceOrTab with
  | [] => []
  | c :: cs => (firstArgument (c :: cs)).1 :: arguments (firstArgument (c :: cs)).2
termination_by t.length
decreasing_by
  have hc : isSpaceOrTab c = false := by
    have := List.head_dropWhile_not isSpaceOrTab (l := t) (by simp [_h])
    simpa [_h] using this
  have := length_firstArgument_lt cs hc
  have hle : (c :: cs).length ≤ t.length := _h ▸ (List.dropWhile_suffix isSpaceOrTab).length_le
  omega

/-- An argument in the form in which it is read back as it is. -/
def quote (argument : Text) : Text :=
  if argument.isEmpty || argument.any fun c => isSpaceOrTab c || c == '"' then
    '"' :: replace argument "\"" "\"\"" ++ "\""
  else argument

end RoffDocBook.ControlLine
