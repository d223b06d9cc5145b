import OthelloBook.Engine.Table
import Mathlib.Tactic

/-!
# Where the result of a table comes from

The lines up to the second border have three parts: those before the table, the border that opens it,
and those inside. Nothing before the table is a fault, and inside it each malformed line is one. A row
is kept wherever it stands, though, so that the border that closes a table without rows brings the
last row from before the table.
-/
namespace OthelloBook

namespace OutputLine

def IsBorder (line : String) : Prop := read line = .ok .border

instance (line : String) : Decidable (IsBorder line) := inferInstanceAs (Decidable (_ = _))

theorem isBorder_borderText : IsBorder (String.ofList borderText) := by
  rw [IsBorder, read, String.toList_ofList]
  decide +kernel

def row? (line : String) : Option SearchRow :=
  match read line with
  | .ok (.row r) => some r
  | _ => none

def lastRow? (lines : List String) : Option SearchRow := (lines.filterMap row?).getLast?

theorem lastRow?_cons (line : String) (lines : List String) :
    lastRow? (line :: lines) = (lastRow? lines).or (row? line) := by
  cases h : row? line <;> simp [lastRow?, h, List.getLast?_cons, Option.or_some]

end OutputLine

open OutputLine

namespace ResultTable

def feedAll (t : ResultTable) :
    List String → List (Except EngineError (Option SearchRow)) × ResultTable
  | [] => ([], t)
  | line :: lines =>
    let (answer, t) := t.feed line
    let (answers, t) := feedAll t lines
    (answer :: answers, t)

/-- The answer to a line inside of a table: none, unless something is wrong with the line. -/
def answerInside (line : String) : Except EngineError (Option SearchRow) :=
  (read line).map fun _ => none

/-- The answer to the border that closes a table, from the row that is kept. -/
def answerAtEnd : Option SearchRow → Except EngineError (Option SearchRow)
  | some r => .ok (some r)
  | none => .error .noResult

variable {t : ResultTable} {line : String} {lines : List String}

theorem feedAll_append (t : ResultTable) (lines more : List String) :
    t.feedAll (lines ++ more) =
      ((t.feedAll lines).1 ++ ((t.feedAll lines).2.feedAll more).1,
        ((t.feedAll lines).2.feedAll more).2) := by
  induction lines generalizing t with
  | nil => rfl
  | cons line lines ih => simp only [List.cons_append, feedAll, ih]

/-- A line that is no border can only bring a row, which is kept on either side of the border. -/
theorem feed_of_not_border (h : ¬IsBorder line) (t : ResultTable) :
    t.feed line =
      (if t.borders = 0 then .ok none else answerInside line, ⟨t.borders, (row? line).or t.last⟩) := by
  rw [IsBorder] at h
  obtain ⟨borders, last⟩ := t
  rw [feed, answerInside, row?]
  cases hread : read line with
  | error e => by_cases hborders : borders = 0 <;> simp [hborders, Except.map]
  | ok output =>
    cases output with
    | ignored => simp [Except.map]
    | row r => simp [Except.map]
    | border => exact absurd hread h

theorem feedAll_of_not_border (h : ∀ line ∈ lines, ¬IsBorder line) (t : ResultTable) :
    t.feedAll lines =
      (lines.map fun line => if t.borders = 0 then .ok none else answerInside line,
        ⟨t.borders, (lastRow? lines).or t.last⟩) := by
  induction lines generalizing t with
  | nil => rfl
  | cons line lines ih =>
    obtain ⟨hline, hlines⟩ := List.forall_mem_cons.1 h
    rw [feedAll, feed_of_not_border hline]
    dsimp only
    rw [ih hlines, lastRow?_cons, Option.or_assoc]
    rfl

theorem feed_opening (h : IsBorder line) (ht : t.borders = 0) :
    t.feed line = (.ok none, ⟨1, t.last⟩) := by
  rw [IsBorder] at h
  simp [feed, h, ht]

theorem feed_closing (h : IsBorder line) (ht : t.borders = 1) :
    t.feed line = (answerAtEnd t.last, ⟨2, none⟩) := by
  rw [IsBorder] at h
  rw [feed, h, ht]
  cases t.last <;> rfl

/-- Lines are read from the beginning up to a second border. None before the first border is answered
with a fault, and inside of the table those that are malformed are. The second border brings the last
row inside of the table. If there is none, it brings the last row before the table, and says that there
is no result only if there is no row there either. -/
theorem empty_table_takes_an_earlier_row {before inside : List String} {opening closing : String}
    (hbefore : ∀ line ∈ before, ¬IsBorder line) (hopening : IsBorder opening)
    (hinside : ∀ line ∈ inside, ¬IsBorder line) (hclosing : IsBorder closing) :
    (feedAll {} before).1 = before.map (fun _ => .ok none) ∧
    (feedAll {} (before ++ opening :: inside)).1 =
      (before ++ [opening]).map (fun _ => .ok none) ++ inside.map answerInside ∧
    ((feedAll {} (before ++ opening :: inside)).2.feed closing).1 =
      answerAtEnd ((lastRow? inside).or (lastRow? before)) := by
  have hfirst : feedAll {} before = (before.map fun _ => .ok none, ⟨0, lastRow? before⟩) := by
    rw [feedAll_of_not_border hbefore]
    simp
  have hopened : feedAll {} (before ++ opening :: inside) =
      ((before ++ [opening]).map (fun _ => .ok none) ++ inside.map answerInside,
        ⟨1, (lastRow? inside).or (lastRow? before)⟩) := by
    rw [feedAll_append, hfirst, feedAll, feed_opening hopening rfl]
    dsimp only
    rw [feedAll_of_not_border hinside]
    simp
  refine ⟨by rw [hfirst], by rw [hopened], ?_⟩
  rw [hopened, feed_closing hclosing rfl]

/-- A row of an earlier search, a line that is none, and then a table in which the only score is a
bound. -/
theorem empty_table_takes_an_earlier_row_bounded_score :
    ∃ (before inside : List String) (border : String),
      (∀ line ∈ before, ¬IsBorder line) ∧ IsBorder border ∧ (∀ line ∈ inside, ¬IsBorder line) ∧
      (feedAll {} before).1 = [.ok none, .ok none] ∧
      (feedAll {} (before ++ border :: inside)).1 =
        [.ok none, .ok none, .ok none, .error (.output "welcome" .columns), .ok none] ∧
      ((feedAll {} (before ++ border :: inside)).2.feed border).1 =
        .ok (some ⟨9, 73, -51, []⟩) := by
  let before := [" 9@73%  -51", "welcome"]
  let inside := ["welcome", "19@73% <-53"]
  let border := String.ofList borderText
  have hbefore : ∀ line ∈ before, ¬IsBorder line := by decide +kernel
  have hinside : ∀ line ∈ inside, ¬IsBorder line := by decide +kernel
  have hrow : (lastRow? inside).or (lastRow? before) = some ⟨9, 73, -51, []⟩ := by decide +kernel
  have hanswers : inside.map answerInside =
      [.error (.output "welcome" .columns), .ok none] := by decide +kernel
  obtain ⟨hfirst, hopened, hclosed⟩ :=
    empty_table_takes_an_earlier_row hbefore isBorder_borderText hinside isBorder_borderText
  rw [hanswers] at hopened
  rw [hrow] at hclosed
  exact ⟨before, inside, border, hbefore, isBorder_borderText, hinside, hfirst, hopened, hclosed⟩

/-- Two borders with nothing between them bring no result. A row before them is no part of the table,
and yet they then bring that row. -/
theorem row_before_a_table_is_not_skipped :
    (feedAll {} [String.ofList borderText, String.ofList borderText]).1 =
        [.ok none, .error .noResult] ∧
      (feedAll {} [" 9@73%  -51        0:00.001          6064    6064000 e8 H5",
          String.ofList borderText, String.ofList borderText]).1 =
        [.ok none, .ok none, .ok (some ⟨9, 73, -51, [.play 60, .play 39]⟩)] := by
  constructor <;> decide +kernel

end ResultTable
end OthelloBook
