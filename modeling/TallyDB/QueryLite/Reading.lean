import Mathlib.Tactic.SplitIfs

/-!
# Reading the text of a statement

To the parser a character of a statement belongs to a string literal or a quoted identifier, to a
comment, or to neither. Which it is, its tokenizer decides. A marked text is a text with some such
decision, and `marked` decides by the common rules.
-/

namespace TallyDB

def isWhitespace (c : Char) : Bool :=
  let n := c.toNat
  (9 ≤ n && n ≤ 13) || n == 0x20 || n == 0x85 || n == 0xA0 || n == 0x1680 ||
    (0x2000 ≤ n && n ≤ 0x200A) || n == 0x2028 || n == 0x2029 || n == 0x202F || n ==
      0x205F || n == 0x3000

inductive Role where
  | code | quoted | comment
  deriving DecidableEq, Repr

def chars (text : List (Char × Role)) : List Char := text.map Prod.fst

/-- What separates words: whitespace and comments. -/
def isGap (m : Char × Role) : Bool := m.2 == .comment || (m.2 == .code && isWhitespace m.1)

theorem chars_append (text more : List (Char × Role)) : chars
      (text ++ more) = chars text ++ chars more :=
  List.map_append

theorem chars_length (text : List (Char × Role)) : (chars text).length = text.length :=
  List.length_map ..

theorem chars_map (text : List Char) (role : Role) : chars (text.map (·, role)) = text := by
  rw [chars, List.map_map]
  exact List.map_id _

/-- Where the reading of a text stands between two characters. -/
inductive Reading where
  | code
  | string
  | identifier
  /-- In a comment that the end of the line ends. -/
  | line
  /-- Between the two characters that open a block comment. -/
  | opening
  | block (star : Bool)
  deriving DecidableEq, Repr

namespace Reading

/-- What the next character is, and where the reading stands after it. A doubled quote is the end of
a quotation and the start of another, and comments do not nest. -/
def next (reading : Reading) (c : Char) (ahead : Option Char) : Role × Reading :=
  match reading with
  | code =>
    if c = '\'' then (.quoted, string)
    else if c = '"' then (.quoted, identifier)
    else if c == '-' && ahead == some '-' then (.comment, line)
    else if c == '/' && ahead == some '*' then (.comment, opening)
    else (.code, code)
  | string => (.quoted, if c = '\'' then code else string)
  | identifier => (.quoted, if c = '"' then code else identifier)
  | line => (.comment, if c = '\n' then code else line)
  | opening => (.comment, block false)
  | block star => (.comment, if star && c == '/' then code else block (c == '*'))

def marked (reading : Reading) : List Char → List (Char × Role)
  | [] => []
  | c :: rest => (c, (reading.next c rest.head?).1) :: (reading.next c rest.head?).2.marked rest

end Reading

/-- The text by the common rules: an apostrophe or a double quote quotes up to the next, two dashes
start a comment up to the end of the line, and a slash with a star one up to a star with a slash. -/
def marked (text : List Char) : List (Char × Role) := Reading.code.marked text

/-- The parser reads the text by the common rules. -/
def Common (text : List (Char × Role)) : Prop := text = marked (chars text)

instance (text : List (Char × Role)) : Decidable (Common text) := inferInstanceAs (Decidable (_ = _))

example : (marked "a'--b' --'".toList).map Prod.snd =
    [.code, .quoted, .quoted, .quoted, .quoted, .quoted, .code, .comment, .comment, .comment] := by
  decide

namespace Reading

variable {c : Char}

/-- A character that neither quotes nor could start a comment. -/
def Plain (c : Char) : Prop := c ≠ '\'' ∧ c ≠ '"' ∧ c ≠ '-' ∧ c ≠ '/'

instance (c : Char) : Decidable (Plain c) := inferInstanceAs (Decidable (_ ∧ _))

theorem next_plain (plain : Plain c) (ahead : Option Char) : code.next c ahead = (.code, code) := by
  obtain ⟨tick, double, dash, slash⟩ := plain
  simp [next, tick, double, dash, slash]

theorem marked_plain {text : List Char} (plain : ∀ c ∈ text, Plain c) (rest : List Char) :
    code.marked (text ++ rest) = text.map (·, Role.code) ++ code.marked rest := by
  induction text with
  | nil => rfl
  | cons c text ih =>
    rw [List.cons_append, marked, next_plain (plain c List.mem_cons_self), ih fun d member =>
      plain d (.tail _ member)]
    rfl

def opens (c : Char) (ahead : Option Char) : Bool :=
  (c == '-' && ahead == some '-') || (c == '/' && ahead == some '*')

theorem next_opens {ahead : Option Char} (opened : opens c ahead = true) :
    (code.next c ahead).1 = .comment := by
  unfold opens at opened
  simp only [Bool.or_eq_true, Bool.and_eq_true, beq_iff_eq] at opened
  rcases opened with ⟨rfl, rfl⟩ | ⟨rfl, rfl⟩ <;> rfl

theorem next_unopened {ahead : Option Char} (tick : c ≠ '\'') (double : c ≠ '"')
    (unopened : opens c ahead = false) : code.next c ahead = (.code, code) := by
  unfold opens at unopened
  rw [Bool.or_eq_false_iff] at unopened
  rw [next, if_neg tick, if_neg double, unopened.1, unopened.2]
  rfl

theorem marked_chars (reading : Reading) (text : List Char) : chars (reading.marked text) = text := by
  induction text generalizing reading with
  | nil => rfl
  | cons c text ih =>
    have rest := ih (reading.next c text.head?).2
    rw [chars] at rest
    rw [marked, chars, List.map_cons, rest]

end Reading

/-- A text read by the common rules is read by the common rules. -/
theorem marked_common (text : List Char) : Common (marked text) := by
  rw [Common, marked, Reading.marked_chars, marked]

theorem plain_of_whitespace {c : Char} (space : isWhitespace c = true) : Reading.Plain c := by
  refine ⟨?_, ?_, ?_, ?_⟩ <;> intro same <;> subst same <;> exact absurd space (by decide)

end TallyDB
