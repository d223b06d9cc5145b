/-!
# Blanks and words

The characters with the Unicode property White_Space, and the words of a text, which are its
maximal runs without blanks. `wordsOf_append_blank` says that a blank at the end adds no word.
-/
namespace OthelloBook.Text

/-- The Unicode property White_Space. -/
def isBlank (c : Char) : Bool :=
  let n := c.toNat
  (9 ≤ n && n ≤ 13) || n = 0x20 || n = 0x85 || n = 0xa0 || n = 0x1680 ||
    (0x2000 ≤ n && n ≤ 0x200a) || n = 0x2028 || n = 0x2029 || n = 0x202f || n = 0x205f ||
    n = 0x3000

def dropBlankEnd : List Char → List Char
  | [] => []
  | c :: cs =>
    match dropBlankEnd cs with
    | [] => if isBlank c then [] else [c]
    | d :: ds => c :: d :: ds

def trim (cs : List Char) : List Char := dropBlankEnd (cs.dropWhile isBlank)

/-- The words of a text after the begun word `w`, which is kept in reverse. -/
def wordsFrom (w : List Char) : List Char → List (List Char)
  | [] => if w.isEmpty then [] else [w.reverse]
  | c :: cs =>
    if isBlank c then
      if w.isEmpty then wordsFrom [] cs else w.reverse :: wordsFrom [] cs
    else wordsFrom (c :: w) cs

/-- The maximal runs of characters that are not blank. -/
def wordsOf (cs : List Char) : List (List Char) := wordsFrom [] cs

theorem wordsFrom_append_blank {b : Char} (hb : isBlank b = true) (w cs : List Char) :
    wordsFrom w (cs ++ [b]) = wordsFrom w cs := by
  induction cs generalizing w with
  | nil => cases w <;> simp [wordsFrom, hb]
  | cons c cs ih => simp only [List.cons_append, wordsFrom, ih]

theorem wordsOf_append_blank {b : Char} (hb : isBlank b = true) (cs : List Char) :
    wordsOf (cs ++ [b]) = wordsOf cs :=
  wordsFrom_append_blank hb [] cs

/-! ## Words of a command

The words of a command line, in which quotes keep blanks together and a backslash takes away the
meaning of what follows. A line whose quotes are not closed has no words in this sense. -/

/-- Where in a command line a character stands: in or between words, in a comment, or in quotes of
either kind. -/
inductive ShellPlace where
  | between | word | comment | single | double
  deriving DecidableEq, Repr

def isShellBlank (c : Char) : Bool := c = ' ' || c = '\t' || c = '\n'

/-- The characters that a backslash escapes inside double quotes. -/
def isShellSpecial (c : Char) : Bool := c = '$' || c = '\x60' || c = '"' || c = '\\'

/-- The words from a place on, where the begun word is `w`, kept in reverse. -/
def shellWordsFrom (place : ShellPlace) (w : List Char) : List Char → Option (List (List Char))
  | [] =>
    match place with
    | .word => some [w.reverse]
    | .between => some []
    | .comment => some []
    | _ => none
  | c :: cs =>
    match place with
    | .comment => shellWordsFrom (if c = '\n' then .between else .comment) w cs
    | .single =>
      if c = '\x27' then shellWordsFrom .word w cs else shellWordsFrom .single (c :: w) cs
    | .double =>
      if c = '"' then shellWordsFrom .word w cs
      else if c = '\\' then
        match cs with
        | [] => none
        | d :: ds =>
          shellWordsFrom .double
            (if d = '\n' then w else if isShellSpecial d then d :: w else d :: '\\' :: w) ds
      else shellWordsFrom .double (c :: w) cs
    | _ =>
      if isShellBlank c then
        if place = .word then (shellWordsFrom .between [] cs).map (w.reverse :: ·)
        else shellWordsFrom .between w cs
      else if c = '#' ∧ place = .between then shellWordsFrom .comment w cs
      else if c = '\x27' then shellWordsFrom .single w cs
      else if c = '"' then shellWordsFrom .double w cs
      else if c = '\\' then
        match cs with
        | [] => none
        | d :: ds => shellWordsFrom .word (if d = '\n' then w else d :: w) ds
      else shellWordsFrom .word (c :: w) cs

def shellWords? (cs : List Char) : Option (List (List Char)) := shellWordsFrom .between [] cs

/-- The words of a command line; one that is left open, or has no words, is cut at blanks. -/
def commandWords (s : String) : List String :=
  let words :=
    match shellWords? s.toList with
    | some (w :: ws) => w :: ws
    | _ => wordsOf s.toList
  words.map String.ofList

end OthelloBook.Text
